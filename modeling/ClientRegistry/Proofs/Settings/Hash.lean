import ClientRegistry.Proofs.Client.Consistent
import ClientRegistry.Proofs.Client.Loading
import ClientRegistry.Proofs.Value.Freezing

/-! Equality and hash agree. Bags of proper values can be hashed, whatever is nested in them, and
what is the same has agreeing digests: equal leaves have one digest, and the parts of equal
containers are paired off. -/

namespace ClientRegistry

namespace Value

open Entries (SameEntry)
open Digest (ofReal_eq_ofInt ofReal_eq_of_same)

variable {a b : Value} {xs ys : List Value} {es fs : List (Value × Value)}

/-- A number that is whole has the digest of the integer, whatever its type. -/
theorem digest_of_whole {n : Int} (ha : a.Proper) (key : a.leafKey? = some (.number n)) :
    a.digest = .ofInt n := by
  cases ha with
  | bool c =>
      simp only [leafKey?, Option.some.injEq, LeafKey.number.injEq, Int.cast_inj] at key
      rw [digest, key]
  | int m =>
      simp only [leafKey?, Option.some.injEq, LeafKey.number.injEq, Int.cast_inj] at key
      rw [digest, key]
  | finite canonical =>
      simp only [leafKey?, Option.some.injEq, LeafKey.number.injEq] at key
      rw [digest, ofReal_eq_ofInt key]
  | _ => cases key

theorem digest_eq_of_same_leaf (ha : a.Proper) (hb : b.Proper) (leaf : a.leafKey?.isSome = true)
    (same : a.same b = true) : a.digest = b.digest := by
  have key := (same_leaf_iff ha hb leaf).mp same
  cases ha with
  | null =>
      cases hb <;> cases key
      rfl
  | bool c => rw [digest_of_whole hb key.symm, digest]
  | int m => rw [digest_of_whole hb key.symm, digest]
  | finite canonical =>
      cases hb with
      | bool c => rw [digest_of_whole (.finite canonical) key, digest]
      | int m => rw [digest_of_whole (.finite canonical) key, digest]
      | finite canonical' =>
          exact ofReal_eq_of_same (by simpa only [Value.same, sameLeaf] using same)
      | _ => cases key
  | infinite s =>
      cases hb with
      | infinite t => exact ofReal_eq_of_same (by simpa only [Value.same, sameLeaf] using same)
      | _ => cases key
  | text s =>
      cases hb <;> cases key
      rfl
  | bytes bs =>
      cases hb <;> cases key
      rfl
  | moment valid =>
      cases hb with
      | moment valid' =>
          exact Moment.ofMoment_eq_of_same valid valid'
            (by simpa only [Value.same, sameLeaf] using same)
      | _ => cases key
  | _ => cases leaf

theorem agreeList_of_forall₂ (all : List.Forall₂ (fun x y => x.same y = true) xs ys)
    (parts : ∀ x ∈ xs, ∀ y ∈ ys, x.same y = true → x.digest.agree y.digest = true) :
    Digest.agreeList (digestList xs) (digestList ys) = true := by
  induction all with
  | nil => rfl
  | cons alike _ ih =>
      simp only [List.forall_mem_cons] at parts
      simp only [digestList, Digest.agreeList, Bool.and_eq_true]
      exact ⟨parts.1.1 alike, ih fun x hx => (parts.2 x hx).2⟩

theorem agree_of_leaf (ha : a.Proper) (leaf : a.leafKey?.isSome = true) (hb : b.Proper)
    (same : a.same b = true) : a.digest.agree b.digest = true := by
  rw [digest_eq_of_same_leaf ha hb leaf same]
  exact Digest.agree_refl _

theorem agree_of_members (ha : a.Proper) (members : a.members? = some xs)
    (parts : ∀ x ∈ xs, ∀ y, y.Proper → x.same y = true → x.digest.agree y.digest = true)
    (hb : b.Proper) (same : a.same b = true) : a.digest.agree b.digest = true := by
  obtain ⟨ys, members', length, total⟩ := (same_members_iff members).mp same
  obtain ⟨apart, proper⟩ := ha.member members
  obtain ⟨-, proper'⟩ := hb.member members'
  have paired : Matched (fun x y => x.same y = true) xs ys :=
    matched_members apart (fun x hx => (proper x hx).lawful) proper proper' length total
  rw [digest_of_members members, digest_of_members members', Digest.agree_bunch_iff,
    digestList_eq_map, digestList_eq_map]
  exact paired.map_of fun x hx y hy => parts x hx y (proper' y hy)

theorem agree_of_entries (ha : (dict es).Proper) (hb : (dict fs).Proper)
    (keys : ∀ e ∈ es, ∀ y, y.Proper → e.1.same y = true → e.1.digest.agree y.digest = true)
    (values : ∀ e ∈ es, ∀ y, y.Proper → e.2.same y = true → e.2.digest.agree y.digest = true)
    (length : es.length = fs.length) (total : ∀ e ∈ es, ∃ f ∈ fs, SameEntry e f) :
    (Digest.bunch (digestEntries es)).agree (.bunch (digestEntries fs)) = true := by
  cases ha with
  | dict apart proper _ =>
      cases hb with
      | dict _ proper' proper'' =>
          have paired : Matched SameEntry es fs :=
            matched_entries apart (fun e he => (proper e he).lawful) proper proper' length total
          rw [Digest.agree_bunch_iff, digestEntries_eq_map, digestEntries_eq_map]
          refine paired.map_of fun e he f hf alike => ?_
          simp only [Digest.agree, Digest.agreeList, keys e he f.1 (proper' f hf) alike.1,
            values e he f.2 (proper'' f hf) alike.2, Bool.and_true]

/-- Of proper values that are the same the digests agree. -/
theorem agree_of_same (ha : a.Proper) (hb : b.Proper) (same : a.same b = true) :
    a.digest.agree b.digest = true := by
  induction ha generalizing b with
  | token hashable proper ih =>
      obtain ⟨n, rfl, alike⟩ := same_token_iff.mp same
      cases hb with
      | token hashable' proper' =>
          simp only [digest, Digest.agree, Digest.agreeList, ih proper' alike, Bool.and_true]
  | bag apart keys values ihk ihv =>
      obtain ⟨fs, rfl, length, total⟩ := same_bag_iff.mp same
      cases hb with
      | bag apart' keys' values' =>
          have options := agree_of_entries (.dict apart keys values) (.dict apart' keys' values')
            (fun e he y hy => ihk e he hy) (fun e he y hy => ihv e he hy) length total
          simp only [digest, Digest.agree, Digest.agreeList] at options ⊢
          simp only [options, Digest.agree_refl, Bool.and_true]
  | dict apart keys values ihk ihv =>
      obtain ⟨fs, rfl, length, total⟩ := same_dict_iff.mp same
      exact agree_of_entries (.dict apart keys values) hb (fun e he y hy => ihk e he hy)
        (fun e he y hy => ihv e he hy) length total
  | list items ih =>
      obtain ⟨ys, rfl, all⟩ := same_list_iff.mp same
      cases hb with
      | list items' => exact agreeList_of_forall₂ all fun x hx y hy => ih x hx (items' y hy)
  | tuple items ih =>
      obtain ⟨ys, rfl, all⟩ := same_tuple_iff.mp same
      cases hb with
      | tuple items' => exact agreeList_of_forall₂ all fun x hx y hy => ih x hx (items' y hy)
  | set apart members ih =>
      exact agree_of_members (.set apart members) rfl (fun x hx y hy => ih x hx hy) hb same
  | frozen apart members ih =>
      exact agree_of_members (.frozen apart members) rfl (fun x hx y hy => ih x hx hy) hb same
  | finite canonical => exact agree_of_leaf (.finite canonical) rfl hb same
  | moment valid => exact agree_of_leaf (.moment valid) rfl hb same
  | null => exact agree_of_leaf .null rfl hb same
  | bool c => exact agree_of_leaf (.bool c) rfl hb same
  | int n => exact agree_of_leaf (.int n) rfl hb same
  | infinite negative => exact agree_of_leaf (.infinite negative) rfl hb same
  | text s => exact agree_of_leaf (.text s) rfl hb same
  | bytes bs => exact agree_of_leaf (.bytes bs) rfl hb same

theorem apart_of_plain (hashable : ∀ x ∈ xs, x.hashable = true) (plain : Plain xs)
    (once : xs.Nodup) : Apart xs where
  hashable := hashable
  distinct := once.imp_of_mem fun {x y} hx hy different => by
    rw [← Bool.not_eq_true]
    exact fun same => different (plain x hx y hy same)

theorem IsText.proper (h : a.IsText) : a.Proper := by
  obtain ⟨s, rfl⟩ := h
  exact .text s

theorem IsToken.proper {kind : TokenKind} (h : a.IsToken kind) : a.Proper := by
  obtain ⟨s, rfl⟩ := h
  exact .token rfl (.text s)

end Value

namespace Client

variable {c : Client}

/-- A client is hashed by its fields, in their order. -/
def hashed (c : Client) : Except Fault Digest :=
  (Value.hashedAll c.values).map .sequence

/-- What the fields hold is proper, and none of it can change. -/
structure Proper (c : Client) : Prop where
  fields : ∀ v ∈ c.values, v.Proper
  hashable : ∀ v ∈ c.values, v.hashable = true

/-- Clients with fields of the declared types are proper as far as their bags are. -/
theorem Typed.proper (typed : c.Typed) (once : c.Distinct)
    (issued : ∀ m, c.issuedAt = .moment m → m.Valid)
    (expires : ∀ m, c.secretExpiresAt = .moment m → m.Valid)
    (client : (Value.bag .client c.clientSettings).Proper)
    (token : (Value.bag .token c.tokenSettings).Proper) : c.Proper := by
  have single : ∀ v : Value, v = .null ∨ v.IsText → v.Proper ∧ v.hashable = true := by
    rintro v (rfl | ⟨s, rfl⟩)
    · exact ⟨.null, rfl⟩
    · exact ⟨.text s, rfl⟩
  have moment : ∀ v : Value, v = .null ∨ v.IsMoment → (∀ m, v = .moment m → m.Valid) →
      v.Proper ∧ v.hashable = true := by
    rintro v (rfl | ⟨m, rfl⟩) valid
    · exact ⟨.null, rfl⟩
    · exact ⟨.moment (valid m rfl), rfl⟩
  have tokens : ∀ {kind xs}, (∀ v ∈ xs, Value.IsToken kind v) → xs.Nodup →
      (Value.frozen xs).Proper := fun tokens once =>
    .frozen (Value.apart_of_plain (fun v hv => (tokens v hv).hashable)
      (Value.plain_of_tokens tokens) once) fun v hv => (tokens v hv).proper
  have texts : ∀ {xs}, (∀ v ∈ xs, Value.IsText v) → xs.Nodup → (Value.frozen xs).Proper :=
    fun texts once => .frozen (Value.apart_of_plain (fun v hv => (texts v hv).hashable)
      (Value.plain_of_texts texts) once) fun v hv => (texts v hv).proper
  have all : ∀ v ∈ c.values, v.Proper ∧ v.hashable = true := by
    simp only [values, List.forall_mem_cons]
    exact ⟨single _ (.inr typed.id), single _ (.inr typed.clientId),
      moment _ typed.issuedAt issued, single _ typed.secret,
      moment _ typed.secretExpiresAt expires, single _ (.inr typed.name),
      ⟨tokens typed.methods once.methods, rfl⟩, ⟨tokens typed.grants once.grants, rfl⟩,
      ⟨texts typed.redirectUris once.redirectUris, rfl⟩, ⟨texts typed.scopes once.scopes, rfl⟩,
      ⟨client, rfl⟩, ⟨token, rfl⟩, fun _ none => absurd none List.not_mem_nil⟩
  exact ⟨fun v member => (all v member).1, fun v member => (all v member).2⟩

theorem Proper.hashed_eq (proper : c.Proper) : c.hashed = .ok c.digest := by
  have parts : ∀ v ∈ c.values, v.hashed = .ok v.digest := fun v member =>
    (proper.fields v member).hashed_eq.2 (proper.hashable v member)
  rw [hashed, Value.hashedAll_eq parts]
  rfl

theorem Proper.agree_of_same {d : Client} (proper : c.Proper) (proper' : d.Proper)
    (same : c.same d = true) : c.digest.agree d.digest = true :=
  Value.agreeList_of_forall₂ (Value.sameList_iff.mp same) fun v hv w hw =>
    Value.agree_of_same (proper.fields v hv) (proper'.fields w hw)

end Client

/-- Bags of proper values can be hashed, at whatever depth their options hold what can change, and
bags that are the same have one hash. So have clients with such bags. -/
theorem hash_respects_equality :
    (∀ a b : Bag, a.value.Proper → b.value.Proper →
      a.value.hashed = .ok a.value.digest ∧ b.value.hashed = .ok b.value.digest ∧
        (a.same b = true → a.value.digest.agree b.value.digest = true)) ∧
      ∀ r s : Client, r.Proper → s.Proper →
        r.hashed = .ok r.digest ∧ s.hashed = .ok s.digest ∧
          (r.same s = true → r.digest.agree s.digest = true) := by
  refine ⟨fun a b ha hb => ⟨?_, ?_, ?_⟩, fun r s hr hs => ⟨hr.hashed_eq, hs.hashed_eq, ?_⟩⟩
  · exact ha.hashed_eq.2 rfl
  · exact hb.hashed_eq.2 rfl
  · exact Value.agree_of_same ha hb
  · exact hr.agree_of_same hs

/-- Options of which one is a list with a dictionary in it and one a set with a pair in it. -/
def quotas : Options :=
  [(.text "limits", .list [.int 1, .dict [(.int 2, .null)]]),
    (.text "peers", .set [.int 1,
      .tuple [.text "x", .moment ⟨2024, 2, 29, 12, 0, 0, 0, some ⟨0, false⟩⟩]])]

/-- The same options in another order, with numbers and a set of other types and the moment at
another offset. -/
def quotasRespelled : Options :=
  [(.text "peers", .frozen [.tuple [.text "x",
      .moment ⟨2024, 2, 29, 13, 0, 0, 0, some ⟨3600, false⟩⟩], .bool true]),
    (.text "limits", .list [.real (.finite false 4503599627370496 (-52)),
      .dict [(.real (.finite false 4503599627370496 (-51)), .null)]])]

/-- A client with the scopes and the client settings given. -/
def tenant (scopes : List Value) (clientSettings : Options) : Client :=
  ⟨.text "t", .text "tenant", .null, .null, .null, .text "Tenant", [clientSecretBasic],
    [.token .grantType (.text "client_credentials")], [], scopes, clientSettings, []⟩

theorem tenant_proper {scopes : List Value} {options : Options} (texts : ∀ v ∈ scopes, v.IsText)
    (once : scopes.Nodup) (proper : (Value.bag .client options).Proper) :
    (tenant scopes options).Proper := by
  have empty : (Value.bag .token []).Proper := by decide
  refine Client.Typed.proper ?_ ⟨?_, ?_, ?_, once⟩ ?_ ?_ proper empty
  · exact ⟨⟨_, rfl⟩, ⟨_, rfl⟩, .inl rfl, .inl rfl, .inl rfl, ⟨_, rfl⟩,
      by simp [tenant, clientSecretBasic, Value.IsToken], by simp [tenant, Value.IsToken],
      by simp [tenant], texts⟩
  all_goals simp [tenant]

/-- Both spellings are the same and have agreeing digests, in a bag and in a client. -/
theorem quotas_hash_alike :
    (Value.bag .client quotas).Proper ∧ (Value.bag .client quotasRespelled).Proper ∧
      (Bag.mk .client quotas).same ⟨.client, quotasRespelled⟩ = true ∧
      (Value.bag .client quotas).digest.agree (Value.bag .client quotasRespelled).digest = true ∧
      (tenant [.text "read", .text "write"] quotas).digest.agree
        (tenant [.text "write", .text "read"] quotasRespelled).digest = true := by
  have first : (Value.bag .client quotas).Proper := by decide +kernel
  have second : (Value.bag .client quotasRespelled).Proper := by decide +kernel
  have same : (Bag.mk .client quotas).same ⟨.client, quotasRespelled⟩ = true := by decide +kernel
  have scopes : (tenant [.text "read", .text "write"] quotas).Proper :=
    tenant_proper (by simp [Value.IsText]) (by simp) first
  have scopes' : (tenant [.text "write", .text "read"] quotasRespelled).Proper :=
    tenant_proper (by simp [Value.IsText]) (by simp) second
  obtain ⟨bags, clients⟩ := hash_respects_equality
  exact ⟨first, second, same,
    (bags ⟨.client, quotas⟩ ⟨.client, quotasRespelled⟩ first second).2.2 same,
    (clients _ _ scopes scopes').2.2 (by decide +kernel)⟩

end ClientRegistry

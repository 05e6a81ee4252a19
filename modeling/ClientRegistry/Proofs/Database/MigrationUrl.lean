import ClientRegistry.Database.Engine
import ClientRegistry.Database.Migration
import ClientRegistry.Proofs.Outcome
import Mathlib.Data.List.Infix

/-! The URL that schema changes connect to. It is the configured one without the asynchronous driver
as long as neither the replacement of the driver nor the template finds anything in the rest: each
of them shortens what it touches, so no URL is put back by a second change. -/

namespace ClientRegistry

namespace Text

theorem lowerChar_length_le (c : Char) : (lowerChar c).length ≤ 2 := by
  rw [lowerChar]
  split
  · exact Nat.le_refl 2
  · split <;> exact Nat.le_succ 1

theorem lower_length_le (cs : List Char) : (lower cs).length ≤ 2 * cs.length := by
  have from_ : ∀ before, (lowerFrom before cs).length ≤ 2 * cs.length := by
    induction cs with
    | nil => exact fun before => Nat.le_refl 0
    | cons c rest ih =>
        intro before
        have tail := ih (c :: before)
        have head := lowerChar_length_le c
        simp only [lowerFrom, List.length_append, List.length_cons]
        split
        · split <;> simp only [List.length_singleton] <;> omega
        · omega
  exact from_ []

end Text

namespace Database

variable {old new cs rest out name value : List Char} {fuel : Nat}

theorem replaceFrom_eq_self (absent : ¬old <:+: cs) : replaceFrom old new fuel cs = cs := by
  induction fuel generalizing cs with
  | zero => rfl
  | succ fuel ih =>
      cases cs with
      | nil => rfl
      | cons c cs =>
          rw [List.infix_cons_iff, not_or] at absent
          rw [replaceFrom, if_neg (by simpa using absent.1), ih absent.2]

theorem replaceFrom_front (present : old ≠ []) :
    replaceFrom old new (fuel + 1) (old ++ cs) = new ++ replaceFrom old new fuel cs := by
  cases old with
  | nil => exact absurd rfl present
  | cons c old =>
      have here : (c :: old).isPrefixOf (c :: old ++ cs) = true :=
        List.isPrefixOf_iff_prefix.mpr (List.prefix_append _ _)
      rw [List.cons_append] at here ⊢
      rw [replaceFrom, if_pos here, ← List.cons_append, List.drop_left]

/-- A text that starts with another character is not found at it. -/
theorem replaceFrom_cons {c d : Char} (other : c ≠ d) :
    replaceFrom (d :: old) new (fuel + 1) (c :: cs) =
      c :: replaceFrom (d :: old) new fuel cs := by
  rw [replaceFrom, if_neg]
  simp [other.symm]

/-- A shorter text in place of a longer one makes the whole no longer, and shorter if there is
anything to replace. -/
theorem replaceFrom_length (shorter : new.length < old.length) (enough : cs.length ≤ fuel) :
    (replaceFrom old new fuel cs).length ≤ cs.length ∧
      (old <:+: cs → (replaceFrom old new fuel cs).length < cs.length) := by
  induction fuel generalizing cs with
  | zero =>
      obtain rfl : cs = [] := List.length_eq_zero_iff.mp (Nat.le_zero.mp enough)
      refine ⟨Nat.le_refl _, fun found => ?_⟩
      rw [List.infix_nil.mp found] at shorter
      exact absurd shorter (Nat.not_lt_zero _)
  | succ fuel ih =>
      cases cs with
      | nil =>
          refine ⟨Nat.le_refl _, fun found => ?_⟩
          rw [List.infix_nil.mp found] at shorter
          exact absurd shorter (Nat.not_lt_zero _)
      | cons c cs =>
          rw [replaceFrom]
          split
          next here =>
            have fits : old.length ≤ (c :: cs).length :=
              (List.isPrefixOf_iff_prefix.mp here).length_le
            have dropped : ((c :: cs).drop old.length).length = (c :: cs).length - old.length :=
              List.length_drop
            have tail : (replaceFrom old new fuel ((c :: cs).drop old.length)).length ≤
                ((c :: cs).drop old.length).length := (ih (by omega)).1
            have less : (new ++ replaceFrom old new fuel ((c :: cs).drop old.length)).length <
                (c :: cs).length := by
              rw [List.length_append]
              omega
            exact ⟨less.le, fun _ => less⟩
          next elsewhere =>
            have rest : cs.length ≤ fuel := Nat.le_of_succ_le_succ enough
            obtain ⟨most, less⟩ := ih rest
            refine ⟨Nat.succ_le_succ most, fun found => Nat.succ_lt_succ (less ?_)⟩
            exact (List.infix_cons_iff.mp found).resolve_left fun start =>
              elsewhere (List.isPrefixOf_iff_prefix.mpr start)

theorem reference?_length (found : reference? cs = some (name, rest)) :
    cs.length = name.length + rest.length + 4 := by
  unfold reference? at found
  split at found
  next tail =>
    have parts : tail = tail.takeWhile (· != ')') ++ tail.dropWhile (· != ')') :=
      List.takeWhile_append_dropWhile.symm
    split at found
    next c name' rest' front back =>
      obtain ⟨rfl, rfl⟩ := Prod.mk.inj (Option.some.inj found)
      rw [parts, front, back]
      simp only [List.length_cons, List.length_append]
      omega
    · cases found
  · cases found

/-- What a reference stands for is shorter than the reference. -/
theorem referent_length (found : referent name = .text value) : value.length < name.length + 4 := by
  simp only [referent] at found
  split at found
  next long =>
    have length : (String.ofList (Text.lower name)).length = 15 := by rw [long]; rfl
    rw [String.length_ofList] at length
    have := Text.lower_length_le name
    have short : "alembic".toList.length = 7 := by decide
    cases found
    omega
  · cases found
    simp
  · cases found
    simp
  · cases found
  · cases found

/-- A template without marks is its own text; a mark makes the text shorter. -/
theorem expandFrom_plain (plain : '%' ∉ cs) : expandFrom fuel cs = .ok cs := by
  induction fuel generalizing cs with
  | zero => rfl
  | succ fuel ih =>
      cases cs with
      | nil => rfl
      | cons c cs =>
          rw [List.mem_cons, not_or] at plain
          rw [expandFrom, ih plain.2]
          · rfl
          · exact fun same => plain.1 same.symm

theorem expandFrom_length (enough : cs.length ≤ fuel) (expanded : expandFrom fuel cs = .ok out) :
    out.length ≤ cs.length ∧ ('%' ∈ cs → out.length < cs.length) := by
  induction fuel, cs using expandFrom.induct generalizing out with
  | case1 cs =>
      obtain rfl : cs = [] := List.length_eq_zero_iff.mp (Nat.le_zero.mp enough)
      cases expanded
      exact ⟨Nat.le_refl _, fun marked => absurd marked List.not_mem_nil⟩
  | case2 fuel some =>
      rw [expandFrom] at expanded
      · cases expanded
        exact ⟨Nat.le_refl _, fun marked => absurd marked List.not_mem_nil⟩
      · exact some
  | case3 fuel rest ih =>
      rw [expandFrom, except_map_eq_ok] at expanded
      obtain ⟨tail, expanded, rfl⟩ := expanded
      simp only [List.length_cons] at enough ⊢
      have most := (ih (by omega) expanded).1
      exact ⟨by omega, fun _ => by omega⟩
  | case4 fuel cs none single =>
      rw [expandFrom, none] at expanded
      · cases expanded
      · exact single
  | case5 fuel cs name rest found missing single =>
      simp only [expandFrom, found, missing] at expanded
      cases expanded
  | case6 fuel cs name rest found itself single =>
      simp only [expandFrom, found, itself] at expanded
      cases expanded
  | case7 fuel cs name rest found value text single ih =>
      simp only [expandFrom, found, text, except_map_eq_ok] at expanded
      obtain ⟨tail, expanded, rfl⟩ := expanded
      have split := reference?_length found
      have shorter := referent_length text
      have most := (ih (by omega) expanded).1
      rw [List.length_append]
      exact ⟨by omega, fun _ => by omega⟩
  | case8 fuel c cs plain ih =>
      rw [expandFrom, except_map_eq_ok] at expanded
      · obtain ⟨tail, expanded, rfl⟩ := expanded
        obtain ⟨most, less⟩ := ih (Nat.le_of_succ_le_succ enough) expanded
        refine ⟨Nat.succ_le_succ most, fun marked => Nat.succ_lt_succ (less ?_)⟩
        exact (List.mem_cons.mp marked).resolve_left fun same => plain same.symm
      · exact plain

theorem dropReferences_plain (plain : '%' ∉ cs) : dropReferences fuel cs = cs := by
  induction fuel generalizing cs with
  | zero => rfl
  | succ fuel ih =>
      cases cs with
      | nil => rfl
      | cons c cs =>
          rw [List.mem_cons, not_or] at plain
          have none : reference? (c :: cs) = none := by
            unfold reference?
            split
            next tail same => cases same; exact absurd rfl plain.1
            · rfl
          rw [dropReferences, none, ih plain.2]

theorem checkTemplate_plain (plain : '%' ∉ cs) : checkTemplate cs = .ok () := by
  have undoubled : replaceAll ['%', '%'] [] cs = cs :=
    replaceFrom_eq_self fun found => plain (found.subset List.mem_cons_self)
  have part : plainPart cs = cs := by rw [plainPart, undoubled, dropReferences_plain plain]
  have none : cs.contains '%' = false := by simpa using plain
  rw [checkTemplate, part, none]
  rfl

/-- What stands between the driver's name and the rest of a URL. -/
def authorityMark : List Char := [':', '/', '/']

theorem asyncDriver_eq : ∃ tail, asyncDriver = 'p' :: tail :=
  ⟨"ostgresql+asyncpg".toList, by decide⟩

/-- The replacement finds the driver's name at the front, and may find it again in the rest. -/
theorem replaceAll_url (r : List Char) :
    replaceAll asyncDriver syncDriver (asyncDriver ++ (authorityMark ++ r)) =
      syncDriver ++ (authorityMark ++ replaceFrom asyncDriver syncDriver (r.length + 17) r) := by
  have length : (asyncDriver ++ (authorityMark ++ r)).length = r.length + 17 + 3 + 1 := by
    have driver : asyncDriver.length = 18 := by decide
    have mark : authorityMark.length = 3 := rfl
    rw [List.length_append, List.length_append, driver, mark]
    omega
  rw [replaceAll, length, replaceFrom_front (by decide)]
  obtain ⟨tail, front⟩ := asyncDriver_eq
  rw [front, authorityMark, List.cons_append, List.cons_append, List.cons_append, List.nil_append,
    replaceFrom_cons (by decide), replaceFrom_cons (by decide), replaceFrom_cons (by decide)]
  rfl

/-- The URL of schema changes for a configured one that names the asynchronous driver. -/
theorem migrationUrl_eq {c : Configuration} {r : List Char}
    (url : c.databaseUrl = some (String.ofList (asyncDriver ++ (authorityMark ++ r)))) :
    migrationUrl c = (do
      let template := syncDriver ++ (authorityMark ++
        replaceFrom asyncDriver syncDriver (r.length + 17) r)
      checkTemplate template
      expand template) := by
  rw [migrationUrl, url]
  simp only [String.toList_ofList, replaceAll_url]

theorem migrationUrl_eq_iff {c : Configuration} {r : List Char}
    (url : c.databaseUrl = some (String.ofList (asyncDriver ++ (authorityMark ++ r)))) :
    migrationUrl c = .ok (syncDriver ++ (authorityMark ++ r)) ↔
      '%' ∉ r ∧ ¬asyncDriver <:+: r := by
  have shorter : syncDriver.length < asyncDriver.length := by decide
  have marks : ∀ cs : List Char, '%' ∈ syncDriver ++ (authorityMark ++ cs) ↔ '%' ∈ cs := by
    have own : '%' ∉ syncDriver ∧ '%' ∉ authorityMark := by decide
    simp [own.1, own.2]
  rw [migrationUrl_eq url]
  constructor
  · intro kept
    obtain ⟨-, -, expanded⟩ := except_bind_eq_ok.mp kept
    obtain ⟨most, less⟩ := expandFrom_length (Nat.le_refl _) expanded
    have replaced := replaceFrom_length shorter (Nat.le_add_right r.length 17)
    simp only [List.length_append, marks] at most less
    have absent : ¬asyncDriver <:+: r := fun found => by
      have := replaced.2 found
      omega
    rw [replaceFrom_eq_self absent] at less
    exact ⟨fun marked => absurd (less marked) (Nat.lt_irrefl _), absent⟩
  · rintro ⟨plain, absent⟩
    rw [replaceFrom_eq_self absent]
    have plain := mt (marks r).mp plain
    simp only [checkTemplate_plain plain, expand, expandFrom_plain plain]
    rfl

theorem takeName?_mark {r : List Char} (present : name ≠ [])
    (named : ∀ c ∈ name, Url.isNameChar c = true) :
    Url.takeName? (name ++ (authorityMark ++ r)) = some (name, r) := by
  have mark : Url.isNameChar ':' = false := by decide +kernel
  have front : (name ++ (authorityMark ++ r)).takeWhile Url.isNameChar = name := by
    rw [List.takeWhile_append_of_pos named]
    simp [authorityMark, mark]
  cases name with
  | nil => exact absurd rfl present
  | cons c name =>
      simp only [Url.takeName?, front, List.drop_left]
      rfl

theorem ofText_driver {name' r : List Char} {url : Url} (present : name ≠ [])
    (named : ∀ c ∈ name, Url.isNameChar c = true) (present' : name' ≠ [])
    (named' : ∀ c ∈ name', Url.isNameChar c = true)
    (read : Url.ofText (name ++ (authorityMark ++ r)) = .ok url) :
    Url.ofText (name' ++ (authorityMark ++ r)) = .ok { url with driver := name' } := by
  rw [Url.ofText, takeName?_mark present named] at read
  rw [Url.ofText, takeName?_mark present' named']
  simp only [except_bind_eq_ok] at read ⊢
  obtain ⟨port, taken, read⟩ := read
  refine ⟨port, taken, ?_⟩
  cases read
  rfl

theorem engine_reads {c : Configuration} {text : String} {o : Option EngineOptions}
    (url : c.databaseUrl = some text) (engine : engineOptions c = .ok o) :
    ∃ url, Url.ofText text.toList = .ok url := by
  rw [engineOptions, url] at engine
  obtain ⟨url, read, -⟩ := except_bind_eq_ok.mp engine
  exact ⟨url, read⟩

theorem exists_level (v : Verbosity) : ∃ n, Logging.levelOf v.name.toList = .ok n := by
  cases v
  · exact ⟨10, rfl⟩
  · exact ⟨20, rfl⟩
  · exact ⟨30, rfl⟩
  · exact ⟨40, rfl⟩

/-- The script of a range of revisions, for the dialect of the configured database. -/
def scriptOf (direction : Direction) (revisions : String) : Except Fault (List String) := do
  let range ← RevisionRange.ofText direction revisions.toList
  script .postgresql direction range

/-- A migration that is finished was given the URL of schema changes. -/
theorem migration_url {env : Environment} {c : Configuration} {direction : Direction}
    {revisions : String} {m : Migration} (loaded : Configuration.load env = .ok c)
    (finished : migration env direction revisions = .ok m) :
    ∃ text, migrationUrl c = .ok text ∧ m.url = String.ofList text := by
  simp only [migration, loaded, except_bind_eq_ok] at finished
  obtain ⟨_, same, _, _, text, migrates, _, _, _, _, _, _, _, _, finished⟩ := finished
  cases same
  cases finished
  exact ⟨text, migrates, rfl⟩

/-- With a URL that can be read and names the blocking driver, a migration depends on its
revisions. -/
theorem migration_eq_scriptOf {env : Environment} {c : Configuration} {text : List Char} {url : Url}
    (loaded : Configuration.load env = .ok c) (migrates : migrationUrl c = .ok text)
    (read : Url.ofText text = .ok url) (driver : url.driver = syncDriver) :
    ∃ logging, ∀ direction revisions,
      migration env direction revisions = (scriptOf direction revisions).map fun lines =>
        ⟨lines, String.ofList text, logging⟩ := by
  obtain ⟨level, named⟩ := exists_level c.verbosity
  have dialect : Driver.ofName syncDriver = .ok ⟨.postgresql, "base"⟩ := by rfl
  refine ⟨.configured level (if c.jsonLogs then .json else .container),
    fun direction revisions => ?_⟩
  simp only [migration, loaded, scriptOf]
  cases RevisionRange.ofText direction revisions.toList with
  | error e => rfl
  | ok range =>
      simp only [migrates, read, driver, dialect, named, bind, Except.bind]
      cases script .postgresql direction range <;> rfl

/-- Schema changes connect to the configured database exactly if the URL has no percent sign and does
not name the asynchronous driver again; then they fail for no reason but their revisions. -/
theorem migration_keeps_url_iff {env : Environment} {c : Configuration} {r : List Char}
    {o : Option EngineOptions} (loaded : Configuration.load env = .ok c)
    (url : c.databaseUrl = some (String.ofList (asyncDriver ++ (authorityMark ++ r))))
    (engine : engineOptions c = .ok o) :
    (migrationUrl c = .ok (syncDriver ++ (authorityMark ++ r)) ↔
        '%' ∉ r ∧ ¬asyncDriver <:+: r) ∧
      (∀ direction revisions m, migration env direction revisions = .ok m →
        (m.url = String.ofList (syncDriver ++ (authorityMark ++ r)) ↔
          '%' ∉ r ∧ ¬asyncDriver <:+: r)) ∧
      ('%' ∉ r ∧ ¬asyncDriver <:+: r → ∃ logging, ∀ direction revisions,
        migration env direction revisions = (scriptOf direction revisions).map fun lines =>
          ⟨lines, String.ofList (syncDriver ++ (authorityMark ++ r)), logging⟩) := by
  have kept := migrationUrl_eq_iff url
  refine ⟨kept, fun direction revisions m finished => ?_, fun condition => ?_⟩
  · obtain ⟨text, migrates, own⟩ := migration_url loaded finished
    rw [← kept, migrates, own, String.ofList_inj, Except.ok.injEq]
  · obtain ⟨parts, read⟩ := engine_reads url engine
    rw [String.toList_ofList] at read
    have named : asyncDriver.all Url.isNameChar = true := by decide +kernel
    have named' : syncDriver.all Url.isNameChar = true := by decide +kernel
    exact migration_eq_scriptOf loaded (kept.mpr condition)
      (ofText_driver (by decide) (List.all_eq_true.mp named) (by decide)
        (List.all_eq_true.mp named') read) rfl

/-- A development environment and its configuration. -/
def environmentOf (url : String) : Environment := ⟨none, none, none, some url⟩

def configurationOf (url : String) : Configuration := ⟨.dev, .info, false, some url⟩

/-- Credentials without a percent sign are kept, and the migration to the head is finished. -/
theorem plain_credentials_kept :
    '%' ∉ "u:p@h/db".toList ∧ ¬asyncDriver <:+: "u:p@h/db".toList ∧
      migrationUrl (configurationOf "postgresql+asyncpg://u:p@h/db") =
        .ok "postgresql://u:p@h/db".toList ∧
      ∃ m, migration (environmentOf "postgresql+asyncpg://u:p@h/db") .upgrade "head" = .ok m ∧
        m.url = "postgresql://u:p@h/db" := by
  have plain : '%' ∉ "u:p@h/db".toList ∧ ¬asyncDriver <:+: "u:p@h/db".toList := by decide
  have loaded : Configuration.load (environmentOf "postgresql+asyncpg://u:p@h/db") =
      .ok (configurationOf "postgresql+asyncpg://u:p@h/db") := by rfl
  have engine : engineOptions (configurationOf "postgresql+asyncpg://u:p@h/db") =
      .ok (some ⟨true, 5, 10, false⟩) := except_eq_ok_of_toOption (by decide +kernel)
  obtain ⟨kept, -, finishes⟩ := migration_keeps_url_iff (r := "u:p@h/db".toList) loaded rfl engine
  obtain ⟨logging, finished⟩ := finishes plain
  refine ⟨plain.1, plain.2, kept.mpr plain, ?_⟩
  rw [finished]
  exact ⟨_, rfl, rfl⟩

/-- Credentials with an encoded at sign are accepted by the engine and refused by the template. -/
theorem encoded_credentials_refused :
    engineOptions (configurationOf "postgresql+asyncpg://u:p%40ss@h/db") =
        .ok (some ⟨true, 5, 10, false⟩) ∧
      migrationUrl (configurationOf "postgresql+asyncpg://u:p%40ss@h/db") =
        .error (.badInterpolation "postgresql://u:p%40ss@h/db" 16) ∧
      ∀ direction revisions m, migration
        (environmentOf "postgresql+asyncpg://u:p%40ss@h/db") direction revisions ≠ .ok m := by
  have loaded : Configuration.load (environmentOf "postgresql+asyncpg://u:p%40ss@h/db") =
      .ok (configurationOf "postgresql+asyncpg://u:p%40ss@h/db") := by rfl
  have refused : migrationUrl (configurationOf "postgresql+asyncpg://u:p%40ss@h/db") =
      .error (.badInterpolation "postgresql://u:p%40ss@h/db" 16) := by rfl
  refine ⟨except_eq_ok_of_toOption (by decide +kernel), refused,
    fun direction revisions m finished => ?_⟩
  obtain ⟨text, migrates, -⟩ := migration_url loaded finished
  rw [refused] at migrates
  cases migrates

end Database

end ClientRegistry

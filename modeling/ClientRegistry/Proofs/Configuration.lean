import ClientRegistry.Configuration
import ClientRegistry.Proofs.Text.Spelling

/-! Configurations of environments in another spelling. All variables but the database URL count
by their trimmed lower-case values, and the first that has none of its documented values is
named. So padding plays no part anywhere, and the case of ASCII letters in the URL only. -/

namespace ClientRegistry

namespace ClosedSetting

/-- The variables in the order in which they are looked at. -/
def all : List ClosedSetting := [.appEnv, .logLevel, .logJson]

/-- What stands for a variable that is not set. -/
def standard : ClosedSetting → String
  | .appEnv => "dev"
  | .logLevel => "info"
  | .logJson => "false"

/-- The spellings of true and of false. -/
def truths : List String := ["1", "true", "yes", "on"]

def falsehoods : List String := ["0", "false", "no", "off", ""]

/-- The values that a variable may have, in lower case. -/
def documented : ClosedSetting → List String
  | .appEnv => ["dev", "test", "prod"]
  | .logLevel => ["debug", "info", "warning", "error"]
  | .logJson => truths ++ falsehoods

end ClosedSetting

namespace Configuration

variable {α : Type} {given given' : Option String} {s : ClosedSetting} {v : String}
  {choice : String → Option α}

theorem trimmed_eq_of_padded
    (padded : Option.Rel (fun a b => Text.Padded a.toList b.toList) given given')
    (default : String) : trimmed given' default = trimmed given default := by
  unfold trimmed
  cases padded with
  | none => rfl
  | some added => exact added.trimBlanks_eq

theorem folded_eq_of_respelled
    (respelled : Option.Rel (fun a b => Text.Respelled a.toList b.toList) given given')
    (default : String) : folded given' default = folded given default := by
  unfold folded trimmed
  cases respelled with
  | none => rfl
  | some other => rw [Option.getD_some, Option.getD_some, other.lower_trimBlanks_eq]

/-- A reader of a variable takes its documented values, and no others. -/
def Takes (choice : String → Option α) (s : ClosedSetting) : Prop :=
  ∀ v, choice v = none ↔ v ∉ s.documented

theorem find?_named_eq_none {l : List α} {name : α → String} :
    (l.find? fun a => name a == v) = none ↔ v ∉ l.map name := by
  simp only [List.find?_eq_none, beq_iff_eq, List.mem_map, not_exists, not_and]

theorem name_of_find? {l : List α} {name : α → String} {a : α}
    (found : (l.find? fun a => name a == v) = some a) : name a = v := by
  have same := List.find?_some found
  exact beq_iff_eq.mp same

theorem takes_deployment? : Takes deployment? .appEnv := fun _ => find?_named_eq_none

theorem takes_verbosity? : Takes verbosity? .logLevel := fun _ => find?_named_eq_none

theorem boolean?_cases (v : String) :
    boolean? v = some true ∧ v ∈ ClosedSetting.truths ∨
      boolean? v = some false ∧ v ∉ ClosedSetting.truths ∧ v ∈ ClosedSetting.falsehoods ∨
        boolean? v = none ∧ v ∉ ClosedSetting.truths ∧ v ∉ ClosedSetting.falsehoods := by
  unfold boolean?
  simp only [List.contains_eq_mem, decide_eq_true_eq]
  by_cases truth : v ∈ ClosedSetting.truths
  · exact .inl ⟨if_pos truth, truth⟩
  · by_cases falsehood : v ∈ ClosedSetting.falsehoods
    · exact .inr (.inl ⟨(if_neg truth).trans (if_pos falsehood), truth, falsehood⟩)
    · exact .inr (.inr ⟨(if_neg truth).trans (if_neg falsehood), truth, falsehood⟩)

theorem takes_boolean? : Takes boolean? .logJson := by
  intro v
  unfold ClosedSetting.documented
  rw [List.mem_append, not_or]
  rcases boolean?_cases v with ⟨found, truth⟩ | ⟨found, _, falsehood⟩ | ⟨found, neither⟩
  · rw [found]
    exact iff_of_false (Option.some_ne_none _) fun other => other.1 truth
  · rw [found]
    exact iff_of_false (Option.some_ne_none _) fun other => other.2 falsehood
  · exact iff_of_true found neither

theorem boolean?_eq_some {b : Bool} (read : boolean? v = some b) :
    b = true ↔ v ∈ ClosedSetting.truths := by
  rcases boolean?_cases v with ⟨found, truth⟩ | ⟨found, other, _⟩ | ⟨found, _⟩
  · rw [found] at read
    cases read
    exact iff_of_true rfl truth
  · rw [found] at read
    cases read
    exact iff_of_false Bool.false_ne_true other
  · rw [found] at read
    cases read

theorem accept_of_documented (takes : Takes choice s) (valid : v ∈ s.documented) :
    ∃ a, choice v = some a ∧ accept s choice v = .ok a := by
  cases found : choice v with
  | none => exact absurd valid ((takes v).mp found)
  | some a => exact ⟨a, rfl, by rw [accept, found]⟩

theorem accept_of_other (takes : Takes choice s) (other : v ∉ s.documented) :
    accept s choice v = .error (.badSetting s v) := by
  rw [accept, (takes v).mpr other]

end Configuration

namespace Environment

variable {env env' : Environment}

def given (env : Environment) : ClosedSetting → Option String
  | .appEnv => env.appEnv
  | .logLevel => env.logLevel
  | .logJson => env.logJson

/-- The value by which a variable counts. -/
def value (env : Environment) (s : ClosedSetting) : String :=
  Configuration.folded (env.given s) s.standard

/-- The first variable that has none of its documented values. -/
def firstBad? (env : Environment) : Option ClosedSetting :=
  ClosedSetting.all.find? fun s => !s.documented.contains (env.value s)

/-- The same variables are set. Any of them may be padded, and the case of ASCII letters may
differ outside of the database URL. -/
structure Respelled (env env' : Environment) : Prop where
  closed : ∀ s, Option.Rel (fun a b => Text.Respelled a.toList b.toList) (env.given s)
    (env'.given s)
  databaseUrl : Option.Rel (fun a b => Text.Padded a.toList b.toList) env.databaseUrl
    env'.databaseUrl

theorem Respelled.value_eq (h : env.Respelled env') (s : ClosedSetting) :
    env'.value s = env.value s :=
  Configuration.folded_eq_of_respelled (h.closed s) s.standard

end Environment

namespace Configuration

variable {env env' : Environment} {c : Configuration}

/-- What a configuration tells of the environment that it is read from. -/
structure Reads (c : Configuration) (env : Environment) : Prop where
  deployment : c.deployment.name = env.value .appEnv
  deployments : c.deployment.name ∈ ClosedSetting.appEnv.documented
  verbosity : c.verbosity.name = env.value .logLevel
  verbosities : c.verbosity.name ∈ ClosedSetting.logLevel.documented
  jsonLogs : c.jsonLogs = true ↔ env.value .logJson ∈ ClosedSetting.truths
  present : c.databaseUrl ≠ some ""
  bare : ∀ url, c.databaseUrl = some url → Text.Bare url.toList
  padded : Text.Padded (c.databaseUrl.getD "").toList (env.databaseUrl.getD "").toList

/-- A URL is what is left of the given one without its padding; nothing left is no URL. -/
theorem url?_toList (given : Option String) :
    ((url? given).getD "").toList = trimmed given "" := by
  unfold url?
  split
  · next blank => exact blank.symm
  · exact String.toList_ofList

theorem url?_ne_empty (given : Option String) : url? given ≠ some "" := by
  unfold url?
  split
  · exact Option.some_ne_none "" ∘ Eq.symm
  · next blank =>
      intro same
      apply blank
      rw [← String.toList_ofList (l := trimmed given ""), Option.some.inj same]
      rfl

theorem bare_of_url? {given : Option String} {url : String} (found : url? given = some url) :
    Text.Bare url.toList := by
  have text := url?_toList given
  rw [found, Option.getD_some] at text
  rw [text]
  exact Text.bare_trimBlanks _

theorem name_deployment (d : Deployment) : d.name ∈ ClosedSetting.appEnv.documented := by
  cases d <;> decide

theorem name_verbosity (v : Verbosity) : v.name ∈ ClosedSetting.logLevel.documented := by
  cases v <;> decide

theorem Reads.of_values {d : Deployment} {v : Verbosity} {b : Bool}
    (deployment : deployment? (env.value .appEnv) = some d)
    (verbosity : verbosity? (env.value .logLevel) = some v)
    (jsonLogs : boolean? (env.value .logJson) = some b) :
    Reads ⟨d, v, b, url? env.databaseUrl⟩ env where
  deployment := name_of_find? deployment
  deployments := name_deployment d
  verbosity := name_of_find? verbosity
  verbosities := name_verbosity v
  jsonLogs := boolean?_eq_some jsonLogs
  present := url?_ne_empty env.databaseUrl
  bare _ found := bare_of_url? found
  padded := by
    rw [url?_toList]
    exact Text.padded_trimBlanks _

/-- An environment is read as it stands, or its first bad variable is named. -/
theorem load_cases (env : Environment) :
    env.firstBad? = none ∧ (∃ c, load env = .ok c ∧ c.Reads env) ∨
      ∃ s, env.firstBad? = some s ∧ load env = .error (.badSetting s (env.value s)) := by
  have run : load env = (do
      let deployment ← accept .appEnv deployment? (env.value .appEnv)
      let verbosity ← accept .logLevel verbosity? (env.value .logLevel)
      let jsonLogs ← accept .logJson boolean? (env.value .logJson)
      .ok ⟨deployment, verbosity, jsonLogs, url? env.databaseUrl⟩) := rfl
  rw [run, Environment.firstBad?, ClosedSetting.all]
  by_cases first : env.value .appEnv ∈ ClosedSetting.appEnv.documented
  · obtain ⟨d, deployment, taken⟩ := accept_of_documented takes_deployment? first
    rw [taken]
    by_cases second : env.value .logLevel ∈ ClosedSetting.logLevel.documented
    · obtain ⟨v, verbosity, taken⟩ := accept_of_documented takes_verbosity? second
      rw [taken]
      by_cases third : env.value .logJson ∈ ClosedSetting.logJson.documented
      · obtain ⟨b, jsonLogs, taken⟩ := accept_of_documented takes_boolean? third
        rw [taken]
        left
        refine ⟨?_, _, rfl, .of_values deployment verbosity jsonLogs⟩
        simp [first, second, third]
      · rw [accept_of_other takes_boolean? third]
        right
        refine ⟨.logJson, ?_, rfl⟩
        simp [first, second, third]
    · rw [accept_of_other takes_verbosity? second]
      right
      refine ⟨.logLevel, ?_, rfl⟩
      simp [first, second]
  · rw [accept_of_other takes_deployment? first]
    right
    refine ⟨.appEnv, ?_, rfl⟩
    simp [first]

/-- An environment in another spelling has the same configuration, or is refused with the same
message. A configuration has documented values only, and its URL, if there is one, is neither
empty nor padded; a refusal names the first variable that has none of its documented values. -/
theorem load_respelled (respelled : env.Respelled env') :
    load env' = load env ∧
      (∀ c, load env = .ok c → env.firstBad? = none ∧ c.Reads env) ∧
      ∀ f, load env = .error f → ∃ s, env.firstBad? = some s ∧
        f = .badSetting s (env.value s) ∧
        f.message = some (s.variable ++ " must be " ++ s.admitted ++ " (got "
          ++ String.ofList (Text.quoted (env.value s).toList) ++ ")") := by
  refine ⟨?_, fun c read => ?_, fun f refused => ?_⟩
  · have deployment : folded env'.appEnv "dev" = folded env.appEnv "dev" :=
      respelled.value_eq .appEnv
    have verbosity : folded env'.logLevel "info" = folded env.logLevel "info" :=
      respelled.value_eq .logLevel
    have jsonLogs : folded env'.logJson "false" = folded env.logJson "false" :=
      respelled.value_eq .logJson
    have url := trimmed_eq_of_padded respelled.databaseUrl ""
    rw [load, deployment, verbosity, jsonLogs, url?, url]
    rfl
  · rcases load_cases env with ⟨none, c', read', reads⟩ | ⟨s, _, refused⟩
    · rw [read] at read'
      cases read'
      exact ⟨none, reads⟩
    · rw [read] at refused
      cases refused
  · rcases load_cases env with ⟨_, c, read, _⟩ | ⟨s, bad, refused'⟩
    · rw [refused] at read
      cases read
    · rw [refused] at refused'
      cases refused'
      exact ⟨s, bad, rfl, rfl⟩

/-- An environment that is read, and one with two bad values, the later of them with a capital sigma
at the end of a word; both beside another spelling. -/
def tidy : Environment := ⟨none, some "debug", some "", some "postgresql://h/Db"⟩

def untidy : Environment :=
  ⟨none, some " DeBug\u3000", some "\t", some "\u00A0postgresql://h/Db\n"⟩

def careless : Environment := ⟨some "Prod", some "loud", some "aΣ", none⟩

def hasty : Environment := ⟨some "\tpROD ", some "LOUD\n", some " AΣ ", none⟩

theorem untidy_respelled : tidy.Respelled untidy where
  closed s := by
    cases s with
    | appEnv => exact .none
    | logLevel =>
        have recased : Text.Recased "debug".toList "DeBug".toList := by decide
        exact .some ⟨_, recased, Text.padded_of_all [' '] ['\u3000'] (by decide) (by decide) rfl⟩
    | logJson =>
        exact .some ⟨[], rfl, Text.padded_of_all ['\t'] [] (by decide) (by decide) rfl⟩
  databaseUrl :=
    .some (Text.padded_of_all ['\u00A0'] ['\n'] (by decide) (by decide) rfl)

theorem hasty_respelled : careless.Respelled hasty where
  closed s := by
    cases s with
    | appEnv =>
        have recased : Text.Recased "Prod".toList "pROD".toList := by decide
        exact .some ⟨_, recased, Text.padded_of_all ['\t'] [' '] (by decide) (by decide) rfl⟩
    | logLevel =>
        have recased : Text.Recased "loud".toList "LOUD".toList := by decide
        exact .some ⟨_, recased, Text.padded_of_all [] ['\n'] (by decide) (by decide) rfl⟩
    | logJson =>
        have recased : Text.Recased "aΣ".toList "AΣ".toList := by decide
        exact .some ⟨_, recased, Text.padded_of_all [' '] [' '] (by decide) (by decide) rfl⟩
  databaseUrl := .none

theorem untidy_loads :
    load untidy = load tidy ∧
      load untidy = .ok ⟨.dev, .debug, false, some "postgresql://h/Db"⟩ ∧
      load hasty = load careless ∧
      load hasty = .error (.badSetting .logLevel "loud") ∧
      (Fault.badSetting .logLevel "loud").message =
        some "LOG_LEVEL must be debug|info|warning|error (got 'loud')" ∧
      careless.firstBad? = some .logLevel ∧ careless.value .logJson = "aς" := by
  have same := (load_respelled untidy_respelled).1
  have same' := (load_respelled hasty_respelled).1
  have read : load tidy = .ok ⟨.dev, .debug, false, some "postgresql://h/Db"⟩ := by rfl
  have refused : load careless = .error (.badSetting .logLevel "loud") := by rfl
  obtain ⟨s, bad, fault, message⟩ := (load_respelled hasty_respelled).2.2 _ refused
  refine ⟨same, same.trans read, same', same'.trans refused, ?_, ?_, ?_⟩
  · decide +kernel
  · cases fault
    exact bad
  · decide +kernel

end Configuration

end ClientRegistry

import LocalCache.ParseSize

namespace LocalCache

open Protocol

/-- What a command line says in one place. -/
inductive Setting
  | verbose
  | valued (o : ServerOption) (value : String)
  deriving DecidableEq, Repr

/-- How an option and its value are written: as two arguments or as one. -/
inductive Style
  | separate
  | inline
  deriving DecidableEq, Repr

namespace ServerOption

def valid (o : ServerOption) (value : String) : Bool :=
  match o with
  | .socket => true
  | .backlog => (boundedOption value 65535).isSome
  | .shutdownDrainMs => (boundedOption value 600000).isSome
  | _ => (sizeOption value 0).isSome

end ServerOption

namespace Setting

def render : Setting → Style → List String
  | .verbose, _ => ["--verbose"]
  | .valued o value, .separate => [o.name, value]
  | .valued o value, .inline => [o.name ++ "=" ++ value]

def problem : Setting → Option String
  | .verbose => none
  | .valued o value =>
    if o.valid value then none else some ("invalid value for " ++ o.name ++ ": " ++ value)

def valueOf (o : ServerOption) : Setting → Option String
  | .verbose => none
  | .valued o' value => if o' = o then some value else none

def last (o : ServerOption) (settings : List Setting) : Option String :=
  (settings.filterMap (valueOf o)).getLast?

def lastOr {α : Type} (meaning : String → α) (o : ServerOption) (settings : List Setting)
    (field : α) : α :=
  ((last o settings).map meaning).getD field

def size (value : String) : UInt64 := (ServerOption.sizeOption value 0).getD 0

def int (limit : UInt64) (value : String) : Int := (ServerOption.boundedOption value limit).getD 0

/-- The configuration with every option set to the value of its last occurrence. -/
def override (config : ServerConfig) (settings : List Setting) : ServerConfig where
  socketPath := lastOr id .socket settings config.socketPath
  maxEntries := lastOr size .maxEntries settings config.maxEntries
  maxCacheBytes := lastOr size .maxCacheBytes settings config.maxCacheBytes
  maxValueBytes := lastOr size .maxValueBytes settings config.maxValueBytes
  maxKeyBytes := lastOr size .maxKeyBytes settings config.maxKeyBytes
  workerThreads := lastOr size .workers settings config.workerThreads
  maxPendingRequests := lastOr size .maxPending settings config.maxPendingRequests
  maxConnections := lastOr size .maxConnections settings config.maxConnections
  maxConnOutputBytes := lastOr size .maxConnOutputBytes settings config.maxConnOutputBytes
  maxInflightPerConn := lastOr size .maxInflightPerConn settings config.maxInflightPerConn
  acceptBacklog := lastOr (int 65535) .backlog settings config.acceptBacklog
  shutdownDrainMs := lastOr (int 600000) .shutdownDrainMs settings config.shutdownDrainMs
  verbose := config.verbose || settings.contains .verbose

theorem last_cons (o : ServerOption) (s : Setting) (settings : List Setting) :
    last o (s :: settings) = (last o settings).or (valueOf o s) := by
  rw [last, last, List.filterMap_cons]
  cases valueOf o s with
  | none => rw [Option.or_none]
  | some value =>
    rw [List.getLast?_cons]
    cases (settings.filterMap (valueOf o)).getLast? <;> rfl

theorem lastOr_cons {α : Type} (meaning : String → α) (o : ServerOption) (s : Setting)
    (settings : List Setting) (field : α) :
    lastOr meaning o (s :: settings) field =
      lastOr meaning o settings (((valueOf o s).map meaning).getD field) := by
  rw [lastOr, lastOr, last_cons]
  cases last o settings <;> rfl

theorem lastOr_nil {α : Type} (meaning : String → α) (o : ServerOption) (field : α) :
    lastOr meaning o [] field = field := rfl

theorem override_nil (config : ServerConfig) : override config [] = config := by
  simp only [override, lastOr_nil, List.contains_nil, Bool.or_false]

theorem override_cons (config : ServerConfig) (s : Setting) (settings : List Setting) :
    override config (s :: settings) = override (override config [s]) settings := by
  simp only [override, lastOr_cons, lastOr_nil, List.contains_cons, List.contains_nil,
    Bool.or_false, Bool.or_assoc]

end Setting

namespace ServerOption

theorem sizeOption_iff (value : String) (target v : UInt64) :
    sizeOption value target = some v ↔ ParseSize.Denotes (chars value) v.toNat := by
  rw [sizeOption, ← ParseSize.parseSize_iff (chars value) target]
  split <;> simp_all

/-- Whether a size is accepted does not depend on the field it is meant for. -/
theorem sizeOption_eq (value : String) (target : UInt64) :
    sizeOption value target = sizeOption value 0 := by
  ext v
  rw [sizeOption_iff, sizeOption_iff]

theorem map_eq_ite {α β : Type} (x : Option α) (f : α → β) (d : α) :
    x.map f = if x.isSome then some (f (x.getD d)) else none := by
  cases x <;> rfl

theorem set_eq (o : ServerOption) (value : String) (config : ServerConfig) :
    o.set value config =
      if o.valid value then some (Setting.override config [.valued o value]) else none := by
  cases o
  case socket =>
    simp [set, valid, Setting.override, Setting.lastOr_cons, Setting.lastOr_nil, Setting.valueOf]
  all_goals
    simp [set, valid, Setting.override, Setting.lastOr_cons, Setting.lastOr_nil, Setting.valueOf,
      sizeOption_eq value, Setting.size, Setting.int]
    exact map_eq_ite _ _ 0

theorem ofName_name (o : ServerOption) : ofName o.name = some o := by
  cases o <;> decide

theorem splitEquals_name (o : ServerOption) : splitEquals o.name = none := by
  cases o <;> decide

theorem name_ne (o : ServerOption) :
    o.name ≠ "--help" ∧ o.name ≠ "-h" ∧ o.name ≠ "--verbose" := by
  cases o <;> decide

theorem splitEquals_inline (o : ServerOption) (value : String) :
    splitEquals (o.name ++ "=" ++ value) = some (o.name, value) := by
  have hall : o.name.toList.all (fun c => c ≠ '=') = true := by
    cases o <;> decide
  have hname := List.all_eq_true.mp hall
  have hspan : (o.name ++ "=" ++ value).toList.span (fun c => c ≠ '=') =
      (o.name.toList, '=' :: value.toList) := by
    rw [String.toList_append, String.toList_append, List.append_assoc,
      List.span_eq_takeWhile_dropWhile, List.takeWhile_append_of_pos hname,
      List.dropWhile_append_of_pos hname]
    simp
  rw [splitEquals, hspan]
  simp only [String.ofList_toList]

theorem ne_of_splitEquals {arg : String} {p : String × String} (h : splitEquals arg = some p) :
    arg ≠ "--help" ∧ arg ≠ "-h" ∧ arg ≠ "--verbose" := by
  have hne : ∀ other, splitEquals other = none → arg ≠ other := by
    rintro other hother rfl
    rw [h] at hother
    cases hother
  exact ⟨hne _ (by decide), hne _ (by decide), hne _ (by decide)⟩

end ServerOption

namespace Setting

def apply (s : Setting) (config : ServerConfig) : Except String ServerConfig :=
  match s.problem with
  | some error => .error error
  | none => .ok (override config [s])

theorem override_verbose (config : ServerConfig) :
    override config [.verbose] = { config with verbose := true } := by
  simp [override, lastOr_cons, lastOr_nil, valueOf]

theorem setOption_name (o : ServerOption) (value : String) (config : ServerConfig) :
    setOption config o.name value = (valued o value).apply config := by
  rw [setOption, ServerOption.ofName_name, apply, problem]
  simp only [ServerOption.set_eq]
  cases o.valid value <;> rfl

theorem parseArgs_render (s : Setting) (style : Style) (args : List String)
    (config : ServerConfig) :
    parseArgs (s.render style ++ args) config =
      match s.apply config with
      | .error error => .fail error
      | .ok config => parseArgs args config := by
  cases s with
  | verbose =>
    change parseArgs ("--verbose" :: args) config = parseArgs args (override config [verbose])
    rw [parseArgs.eq_def, override_verbose]
    rfl
  | valued o value =>
    rw [← setOption_name]
    cases style with
    | separate =>
      -- whatever the value looks like, it is consumed with the name
      change parseArgs (o.name :: value :: args) config = _
      rw [parseArgs.eq_def]
      cases hset : setOption config o.name value <;>
        simp only [ServerOption.name_ne, ServerOption.splitEquals_name, or_self, if_false, hset]
    | inline =>
      -- the first `=` is the one behind the name, also where the value has one
      have hsplit := ServerOption.splitEquals_inline o value
      change parseArgs ((o.name ++ "=" ++ value) :: args) config = _
      rw [parseArgs.eq_def]
      cases hset : setOption config o.name value <;>
        simp only [ServerOption.ne_of_splitEquals hsplit, hsplit, or_self, if_false, hset]

end Setting

namespace ArgStyles

open Setting

def render (line : List (Setting × Style)) : List String :=
  line.flatMap fun p => p.1.render p.2

/-- What a line means, without its styles: the error of the first invalid value, or what
`validate` says of the configuration that the settings make. -/
def outcome (config : ServerConfig) (settings : List Setting) : ConfigParseResult :=
  match settings.findSome? problem with
  | some error => { error := error }
  | none =>
    match (override config settings).validate with
    | some error => { error := error }
    | none => { config := some (override config settings) }

theorem outcome_cons (config : ServerConfig) (s : Setting) (settings : List Setting) :
    outcome config (s :: settings) =
      match s.apply config with
      | .error error => .fail error
      | .ok config => outcome config settings := by
  rw [outcome, List.findSome?_cons, apply, override_cons config s settings]
  cases s.problem <;> rfl

theorem parseArgs_line (line : List (Setting × Style)) (config : ServerConfig) :
    parseArgs (render line) config = outcome config (line.map Prod.fst) := by
  induction line generalizing config with
  | nil =>
    rw [List.map_nil, outcome, override_nil]
    rfl
  | cons p line ih =>
    rw [render, List.flatMap_cons, parseArgs_render, List.map_cons, outcome_cons]
    cases p.1.apply config with
    | error error => rfl
    | ok config => exact ih config

/-- The styles do not matter, and of every option only the last value does. -/
theorem parseServerArgs_line (program : String) (line : List (Setting × Style)) :
    parseServerArgs (program :: render line) = outcome {} (line.map Prod.fst) ∧
      ∀ other : List (Setting × Style), other.map Prod.fst = line.map Prod.fst →
        parseServerArgs (program :: render other) = parseServerArgs (program :: render line) := by
  have hline : ∀ line, parseServerArgs (program :: render line) =
      outcome {} (line.map Prod.fst) := fun line => parseArgs_line line {}
  refine ⟨hline line, fun other hother => ?_⟩
  rw [hline, hline, hother]

example : parseServerArgs ["cache_server", "--workers=2", "--socket", "a=b", "--workers", "x"] =
    { error := "invalid value for --workers: x" } := by
  decide +kernel

end ArgStyles

end LocalCache

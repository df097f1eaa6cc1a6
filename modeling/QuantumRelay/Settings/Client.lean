import QuantumRelay.Job.Error
import QuantumRelay.Yaml.Reader

/-!
# Client settings

The settings of a client: where its endpoint directory is, how long it waits, and how it runs
circuits. A settings document may leave out any of them. A plain scalar is a number, a truth value,
nothing or a text as the setting asks; a quoted one is always a text.
-/

namespace QuantumRelay

structure ClientConfig where
  directory : Option String := none
  requestTimeoutSecs : UInt64 := 300
  connectTimeoutSecs : UInt64 := 10
  run : RunConfig := {}
deriving DecidableEq, Repr, Inhabited

namespace Yaml

def text? : Yaml → Option String
  | .scalar text _ => some text
  | _ => none

def bool? : Yaml → Option Bool
  | .scalar text true =>
    if ["true", "True", "TRUE"].contains text then some true
    else if ["false", "False", "FALSE"].contains text then some false
    else none
  | _ => none

/-- The number that a plain scalar spells: decimal without a leading zero, or after `0x`, `0o` or
`0b` in base 16, 8 or 2, with at most one plus sign before it. -/
def natural? : Yaml → Option Nat
  | .scalar text true =>
    match (match text.toList with | '+' :: rest => rest | cs => cs) with
    | '0' :: 'x' :: ds => Digit.number? 16 ds
    | '0' :: 'o' :: ds => Digit.number? 8 ds
    | '0' :: 'b' :: ds => Digit.number? 2 ds
    | '0' :: d :: ds =>
      if (d :: ds).all Digit.isDecimal then none else Digit.number? 10 ('0' :: d :: ds)
    | cs => Digit.number? 10 cs
  | _ => none

def word32? (y : Yaml) : Option UInt32 :=
  y.natural?.bind fun n => if n < UInt32.size then some (UInt32.ofNat n) else none

def word64? (y : Yaml) : Option UInt64 :=
  y.natural?.bind fun n => if n < UInt64.size then some (UInt64.ofNat n) else none

/-- A value that may be missing: an empty plain scalar, `~` and `null` say that it is. -/
def nullable? {α : Type} (value? : Yaml → Option α) (y : Yaml) : Option (Option α) :=
  match y with
  | .scalar text true =>
    if ["", "~", "null", "Null", "NULL"].contains text then some none else (value? y).map some
  | y => (value? y).map some

/-- The entries of a mapping with no key but the given ones and none twice. Nothing at all counts as
an empty mapping. -/
def entries? (names : List String) : Yaml → Option (List (String × Yaml))
  | .mapping entries =>
    if entries.all (fun e => names.contains e.1) && (entries.map (·.1)).Nodup then some entries
    else none
  | .scalar "" true => some []
  | _ => none

/-- The value of a setting, or its own value if the setting is missing. -/
def setting {α : Type} (entries : List (String × Yaml)) (name : String) (missing : α)
    (value? : Yaml → Option α) : Option α :=
  match entries.lookup name with
  | some y => value? y
  | none => some missing

end Yaml

def RunConfig.ofYaml? (y : Yaml) : Option RunConfig := do
  let e ← y.entries? RunConfig.fieldNames
  some { shots := ← Yaml.setting e "shots" 1024 Yaml.word32?
         method := ← Yaml.setting e "method" .automatic
           fun y => y.text?.bind (List.lookup · Method.choices)
         seed := ← Yaml.setting e "seed" none (Yaml.nullable? Yaml.word64?)
         maxParallelThreads :=
           ← Yaml.setting e "max_parallel_threads" none (Yaml.nullable? Yaml.word32?)
         fusion := ← Yaml.setting e "fusion" true Yaml.bool? }

namespace ClientConfig

def fault? (c : ClientConfig) : Option SettingsFault :=
  if c.requestTimeoutSecs = 0 || c.connectTimeoutSecs = 0 then some .noTimeout else c.run.fault?

def toJson (c : ClientConfig) : Json :=
  .object <|
    Json.fieldOf? "directory" c.directory .text ++
    [("request_timeout_secs", .ofWord64 c.requestTimeoutSecs),
      ("connect_timeout_secs", .ofWord64 c.connectTimeoutSecs), ("run", c.run.toJson)]

def ofYaml? (y : Yaml) : Option ClientConfig := do
  let e ← y.entries? ["directory", "request_timeout_secs", "connect_timeout_secs", "run"]
  some { directory := ← Yaml.setting e "directory" none (Yaml.nullable? Yaml.text?)
         requestTimeoutSecs := ← Yaml.setting e "request_timeout_secs" 300 Yaml.word64?
         connectTimeoutSecs := ← Yaml.setting e "connect_timeout_secs" 10 Yaml.word64?
         run := ← Yaml.setting e "run" {} RunConfig.ofYaml? }

def read (text : String) : Except JobError ClientConfig :=
  match (Yaml.read? text).bind ofYaml? with
  | none => .error (.configuration .notSettings)
  | some c =>
    match c.fault? with
    | some fault => .error (.configuration (.settings fault))
    | none => .ok c

end ClientConfig

end QuantumRelay

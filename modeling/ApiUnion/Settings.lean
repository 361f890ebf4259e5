import ApiUnion.Merge.Members
import ApiUnion.Model.Emission
import ApiUnion.Toml.Document

-- Settings of a run, and reading them from a file. What a file does not set has its default.

namespace ApiUnion

structure LogSettings where
  -- The name of a level, or filters of the log by target.
  level : String := "info"
  json : Bool := false
  stderr : Bool := true
  file : Option String := none
deriving DecidableEq, Repr

structure Settings where
  merge : MergeOptions := {}
  -- Divide classes whose snapshots cannot be merged into groups that can.
  groupClasses : Bool := false
  emit : EmitOptions := {}
  -- Without limit if zero.
  maxDecodeFailures : Nat := 0
  shards : Nat := 1
  log : LogSettings := {}
deriving DecidableEq, Repr

inductive SettingsError
  | unreadable (path : String)
  | malformed
  | invalid (key reason : String)
deriving DecidableEq, Repr

def SettingsError.message : SettingsError → String
  | unreadable path => s!"failed to read config file {path}"
  | malformed => "failed to parse toml config"
  | invalid key reason => s!"invalid value for \x60{key}\x60: {reason}"

namespace Settings

open Toml

-- The values of a section for the keys it may have. A list gives them by place, and what it has
-- beyond the last key is not looked at.
def valuesOf? (keys : List String) : Option Value → Option (List (Option Value))
  | none => some (keys.map fun _ => none)
  | some (.table rows) =>
    if rows.all fun row => (keys.map ([·])).contains row.1 then
      some (keys.map fun key => rows.lookup [key])
    else none
  | some (.list items) => some (keys.zipIdx.map fun (_, index) => items[index]?)
  | _ => none

def boolean? (default : Bool) : Option Value → Option Bool
  | none => some default
  | some (.boolean value) => some value
  | _ => none

-- A whole number up to a limit.
def natural? (default limit : Nat) : Option Value → Option Nat
  | none => some default
  | some (.integer (.ofNat n)) => if n ≤ limit then some n else none
  | _ => none

def text? (default : String) : Option Value → Option String
  | none => some default
  | some (.text value) => some value
  | _ => none

def optionalText? : Option Value → Option (Option String)
  | none => some none
  | some (.text value) => some (some value)
  | _ => none

def mergeKeys : List String :=
  ["deep_signature_merge", "group_classes", "skip_package_private_member_classes"]

def outputKeys : List String :=
  ["write_parameters", "stub_bodies", "class_major_version"]

def runKeys : List String :=
  ["max_decode_failures", "shards"]

def logKeys : List String :=
  ["level", "json", "stderr", "file"]

def merge? (settings : Settings) (given : Option Value) : Option Settings := do
  match ← valuesOf? mergeKeys given with
  | [deep, group, skip] =>
    pure { settings with
      merge := ⟨← boolean? settings.merge.deep deep,
        ← boolean? settings.merge.skipPackagePrivateMembers skip⟩
      groupClasses := ← boolean? settings.groupClasses group }
  | _ => none

def output? (settings : Settings) (given : Option Value) : Option Settings := do
  match ← valuesOf? outputKeys given with
  | [parameters, stubs, major] =>
    pure { settings with
      emit := ⟨← boolean? settings.emit.writeParameters parameters,
        ← boolean? settings.emit.stubBodies stubs,
        UInt16.ofNat (← natural? settings.emit.major.toNat 0xffff major)⟩ }
  | _ => none

def run? (settings : Settings) (given : Option Value) : Option Settings := do
  match ← valuesOf? runKeys given with
  | [failures, shards] =>
    pure { settings with
      maxDecodeFailures := ← natural? settings.maxDecodeFailures 0xffffffffffffffff failures
      shards := ← natural? settings.shards 0xffffffffffffffff shards }
  | _ => none

def log? (settings : Settings) (given : Option Value) : Option Settings := do
  match ← valuesOf? logKeys given with
  | [level, json, stderr, file] =>
    pure { settings with
      log := ⟨← text? settings.log.level level, ← boolean? settings.log.json json,
        ← boolean? settings.log.stderr stderr, ← optionalText? file⟩ }
  | _ => none

-- A file has no sections but these.
def ofTable? (root : Table Value) : Option Settings := do
  if root.keys.all fun key => ["merge", "output", "run", "logging"].contains key then
    let settings ← merge? {} (root.get? "merge")
    let settings ← output? settings (root.get? "output")
    let settings ← run? settings (root.get? "run")
    log? settings (root.get? "logging")
  else none

def check (settings : Settings) : Except SettingsError Settings :=
  if settings.shards = 0 then .error (.invalid "run.shards" "must be at least 1")
  else if settings.emit.major < 45 then
    .error (.invalid "output.class_major_version"
      s!"{settings.emit.major} is not a class file version")
  else .ok settings

def ofText (text : String) : Except SettingsError Settings :=
  match Toml.ofText? text >>= ofTable? with
  | none => .error .malformed
  | some settings => settings.check

-- Whether more classes failed to decode than the run puts up with.
def exceeded (settings : Settings) (failures : Nat) : Bool :=
  settings.maxDecodeFailures ≠ 0 && failures > settings.maxDecodeFailures

end Settings

end ApiUnion

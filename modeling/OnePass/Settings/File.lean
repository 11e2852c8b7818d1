import OnePass.Settings
import OnePass.Toml.Document

/-!
# Settings from a file

* `Settings.ofToml?` — the settings that a TOML text gives.
-/

namespace OnePass.Settings

open Toml

def byteOf (table : Table) (name : String) (default : Nat) : Option Nat :=
  match table.lookup name with
  | none => some default
  | some (.integer value) => if 0 ≤ value && value ≤ 255 then some value.toNat else none
  | some _ => none

def booleanOf (table : Table) (name : String) (default : Bool) : Option Bool :=
  match table.lookup name with
  | none => some default
  | some (.boolean value) => some value
  | some _ => none

def ofTable? (table : Table) : Option Settings := do
  let standard : Settings := {}
  return { unwrapExitCode := ← byteOf table "unwrap_exit_code" standard.unwrapExitCode
           emitComments := ← booleanOf table "emit_comments" standard.emitComments
           verbosity := ← byteOf table "verbosity" standard.verbosity }

def ofToml? (text : String) : Option Settings := (parse? text).bind ofTable?

end OnePass.Settings

/-
`core/Config.cpp`, `core/i01_core/Config.hpp`: the configuration, as a map
from dotted keys, and those who listen to its changes.

# States

`ConfigState` is a `std::map` from strings with a version and the prefix it
was copied under; maps are equal when their contents are.

# Tables

A Lua file is run by the interpreter, and what is left is the table under
the global name: a tree that `flatten_luatable` goes through with `lua_next`,
in whatever order that has. Keys that are numbers are left out: `lua_tostring`
turns such a key into a string in its place on the stack, and what `lua_next`
does then is not said by its manual.

# Listeners

Listeners are known by their pointers. They are called with the mutex held;
a listener that changes the configuration while it is told of a change is
left out.
-/
import TradingEngine.OE.Types
import Mathlib.Data.Finset.Sort
import Std.Data.ExtTreeMap
import Std.Data.ExtTreeSet

namespace TradingEngine.Core

open OE (Bytes)

-- ==================================================================== states

/-- `ConfigStateBase`. -/
abbrev ConfigStateBase := Std.ExtTreeMap Bytes Bytes

/-- The delimiter of keys, by default. -/
def dot : UInt8 := 46

@[ext] structure ConfigState where
  base : ConfigStateBase
  version : UInt64
  /-- `m_prefix`. -/
  mPrefix : Bytes
  deriving DecidableEq

namespace ConfigState

variable (cs : ConfigState)

/-- `create()`. -/
def empty : ConfigState := ⟨∅, 0, []⟩

/-- `create(*m_storage)`. -/
def create : ConfigState := { cs with version := 0 }

/-- `get` of a string. -/
def get (key : Bytes) : Option Bytes := cs.base[key]?

/-- `copy_prefix_domain`. -/
def copyPrefixDomain (pre : Bytes) : ConfigState where
  base := cs.base.foldl
    (fun m key value =>
      if pre <+: key then m.insertIfNew (key.drop pre.length) value else m)
    ∅
  version := cs.version
  mPrefix := cs.mPrefix ++ pre

/-- `get_key_prefix_set`. -/
def getKeyPrefixSet (delimiter : UInt8) : Std.ExtTreeSet Bytes :=
  cs.base.foldl (fun s key _ => s.insert (key.takeWhile (· ≠ delimiter))) ∅

/-- `(*cs)[key] = value`, for each of some. -/
def setAll (kvs : List (Bytes × Bytes)) : ConfigState :=
  { cs with base := kvs.foldl (fun m kv => m.insert kv.1 kv.2) cs.base }

end ConfigState

-- ==================================================================== tables

/-- `true` and `false`, as they are written. -/
def boolText (b : Bool) : Bytes :=
  if b then [116, 114, 117, 101] else [102, 97, 108, 115, 101]

inductive LuaKey
  | boolean (b : Bool)
  | string (s : Bytes)
  /-- Of another type: a number, a function, a table. -/
  | other
  deriving DecidableEq

/-- The text of a key, for those that have one. -/
def LuaKey.text : LuaKey → Option Bytes
  | .boolean b => some (boolText b)
  | .string s => some s
  | .other => none

mutual

inductive LuaValue
  | boolean (b : Bool)
  /-- A number, as `lua_tostring` writes it. -/
  | number (text : Bytes)
  | string (s : Bytes)
  | table (t : LuaTable)
  /-- A function, a thread, user data. -/
  | other

/-- The fields of a table, in the order of `lua_next`. -/
inductive LuaTable
  | nil
  | cons (key : LuaKey) (value : LuaValue) (rest : LuaTable)

end

/-- What a value is written as, if it is no table. -/
def LuaValue.text : LuaValue → Option Bytes
  | .boolean b => some (boolText b)
  | .number text => some text
  | .string s => some s
  | .table _ | .other => none

/-- The scope of a field. -/
def childScope (scope key : Bytes) : Bytes :=
  if scope = [] then key else scope ++ dot :: key

mutual

/-- `flatten_luatable`: whether all of it could be written, and the map. At
the top level the scope is empty. -/
def flattenLuatable (scope : Bytes) : LuaTable → ConfigStateBase →
    Bool × ConfigStateBase
  | .nil, m => (true, m)
  | .cons key value rest, m =>
      match key.text with
      | none => (false, m)
      | some key =>
          match flattenValue (childScope scope key) value m with
          | none => (false, m)
          | some (ok, m) =>
              let r := flattenLuatable scope rest m
              (ok && r.1, r.2)

/-- The value of a field; `none` ends the table. -/
def flattenValue (scope : Bytes) : LuaValue → ConfigStateBase →
    Option (Bool × ConfigStateBase)
  | .boolean b, m => some (true, m.insert scope (boolText b))
  | .number text, m => some (true, m.insert scope text)
  | .string s, m => some (true, m.insert scope s)
  | .table t, m => some (flattenLuatable scope t m)
  | .other, _ => none

end

-- ============================================================ configuration

structure Config where
  /-- `m_storage`. -/
  storage : ConfigState
  /-- `m_listeners`. -/
  listeners : Finset Nat
  deriving DecidableEq

/-- A call of `on_config_update`. -/
structure ConfigNotice where
  listener : Nat
  old : ConfigState
  new : ConfigState
  deriving DecidableEq

namespace Config

variable (c : Config)

/-- The constructor. -/
def init : Config := ⟨.empty, ∅⟩

/-- `update`. -/
def update (newState : ConfigState) : Config × List ConfigNotice :=
  if c.storage.base = newState.base then (c, [])
  else
    let storage := { newState with version := c.storage.version + 1 }
    ({ c with storage },
      (c.listeners.sort (· ≤ ·)).map fun l => ⟨l, c.storage, storage⟩)

/-- The key that `copy_key` writes to: the last part of the source, under a
domain that is not empty. -/
def copiedKey (srcKey dstDomain : Bytes) (delimiter : UInt8) : Bytes :=
  let k := (srcKey.splitOn delimiter).getLastD []
  if dstDomain.getLast? = some delimiter then dstDomain ++ k
  else dstDomain ++ delimiter :: k

/-- `copy_key`, without its result. -/
def copyKey (srcKey dstDomain : Bytes) (overwrite : Bool)
    (delimiter : UInt8) : Config × List ConfigNotice :=
  match c.storage.get srcKey with
  | none => (c, [])
  | some value =>
      let dstk := copiedKey srcKey dstDomain delimiter
      if !overwrite && (c.storage.get dstk).isSome then (c, [])
      else c.update (c.storage.create.setAll [(dstk, value)])

/-- `load_strings`. -/
def loadStrings (strs : List (Bytes × Bytes)) : Config × List ConfigNotice :=
  c.update (c.storage.create.setAll strs)

/-- `load_environ`: the variables with the prefix, without it. -/
def loadEnviron (pre : Bytes) (env : List (Bytes × Bytes)) :
    Config × List ConfigNotice :=
  c.update (c.storage.create.setAll
    ((env.filter fun kv => pre <+: kv.1).map fun kv =>
      (kv.1.drop pre.length, kv.2)))

/-- The decimal digits of `std::to_string`. -/
def decimal (n : Nat) : Bytes :=
  (Nat.toDigits 10 n).map fun c => c.toNat.toUInt8

/-- The keys of an option: none without a value, its name with one, and
numbered ones with more. -/
def variableKeys (kv : Bytes × List Bytes) : List (Bytes × Bytes) :=
  match kv.2 with
  | [] => []
  | [v] => [(kv.1, v)]
  | vs => vs.zipIdx.map fun v => (kv.1 ++ dot :: decimal (v.2 + 1), v.1)

/-- `load_variables_map`, of the values that `any_to_vec_strings` gives. -/
def loadVariablesMap (vm : List (Bytes × List Bytes)) :
    Config × List ConfigNotice :=
  c.update (c.storage.create.setAll (vm.flatMap variableKeys))

/-- `load_lua_file`, of a file that leaves a table, or does not. -/
def loadLuaFile (table : Option LuaTable) : Config × List ConfigNotice :=
  match table with
  | none => (c, [])
  | some t =>
      let r := flattenLuatable [] t c.storage.base
      if r.1 then c.update { c.storage.create with base := r.2 } else (c, [])

/-- `reset`. -/
def reset : Config × List ConfigNotice := c.update .empty

end Config

/-- The calls that change a configuration, or who listens to it. -/
inductive ConfigCall
  | subscribe (listener : Nat)
  | unsubscribe (listener : Nat)
  | copyKey (srcKey dstDomain : Bytes) (overwrite : Bool) (delimiter : UInt8)
  | loadStrings (strs : List (Bytes × Bytes))
  | loadEnviron (pre : Bytes) (env : List (Bytes × Bytes))
  | loadVariablesMap (vm : List (Bytes × List Bytes))
  | loadLuaFile (table : Option LuaTable)
  | reset

namespace Config

/-- A call, and whom it tells. -/
def call (c : Config) : ConfigCall → Config × List ConfigNotice
  | .subscribe l => ({ c with listeners := insert l c.listeners }, [])
  | .unsubscribe l => ({ c with listeners := c.listeners.erase l }, [])
  | .copyKey src dst overwrite delimiter =>
      c.copyKey src dst overwrite delimiter
  | .loadStrings strs => c.loadStrings strs
  | .loadEnviron pre env => c.loadEnviron pre env
  | .loadVariablesMap vm => c.loadVariablesMap vm
  | .loadLuaFile table => c.loadLuaFile table
  | .reset => c.reset

/-- The configuration after some calls. -/
def after (c : Config) (calls : List ConfigCall) : Config :=
  calls.foldl (fun c e => (c.call e).1) c

/-- All that is told in some calls. -/
def notices (c : Config) : List ConfigCall → List ConfigNotice
  | [] => []
  | e :: calls => (c.call e).2 ++ notices (c.call e).1 calls

end Config

end TradingEngine.Core

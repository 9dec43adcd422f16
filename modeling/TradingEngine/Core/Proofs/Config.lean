/-
A configuration from a Lua table, and the changes that listeners are told.

# Tables

The fields of a table get the keys of their paths, joined by dots. If the
keys of the table have no dots in them and are not empty, a path can be told
from its key (`below_childScope`), so that what is found under a key is the
leaf at its path (`flattenLuatable_spec`). To copy the domain of a path is
then to flatten the table at that path, and the set of key prefixes is the
set of its fields that hold anything (`config_navigates_table`).

# Changes

A change either leaves the contents as they were, and tells nobody, or it
tells every listener of the state that was and the one that is
(`update_cases`). So the states that a listener is told follow one another.
-/
import TradingEngine.Core.Config
import Mathlib.Data.List.Infix

namespace TradingEngine.Core

open OE (Bytes)

-- ==================================================================== states

section States

/-- What is found under a key of a copied domain. -/
theorem ConfigState.get_copyPrefixDomain (cs : ConfigState)
    (pre k : Bytes) :
    (cs.copyPrefixDomain pre).get k = cs.get (pre ++ k) := by
  have hfold : ∀ (kvs : List (Bytes × Bytes)) (m : ConfigStateBase),
      kvs.Pairwise (fun a b => ¬ compare a.1 b.1 = .eq) →
      (∀ kv ∈ kvs, ∀ k, kv.1 = pre ++ k → k ∉ m) → ∀ k v,
      (kvs.foldl (fun m kv => if pre <+: kv.1 then
          m.insertIfNew (kv.1.drop pre.length) kv.2 else m) m)[k]? = some v
        ↔ (pre ++ k, v) ∈ kvs ∨ m[k]? = some v := by
    intro kvs
    induction kvs with
    | nil => exact fun m _ _ k v => (or_iff_right List.not_mem_nil).symm
    | cons kv kvs ih =>
        intro m hdistinct hfresh k v
        obtain ⟨hkv, hrest⟩ := List.pairwise_cons.mp hdistinct
        have hlater : ∀ kv' ∈ kvs, kv'.1 ≠ kv.1 := by
          intro kv' hkv' heq
          apply hkv kv' hkv'
          rw [heq]
          exact Std.ReflCmp.compare_self
        rw [List.foldl_cons]
        by_cases hpre : pre <+: kv.1
        · obtain ⟨k₀, hk₀⟩ := hpre
          have hdrop : kv.1.drop pre.length = k₀ := by
            rw [← hk₀, List.drop_left]
          have hnew := hfresh kv List.mem_cons_self k₀ hk₀.symm
          rw [if_pos ⟨k₀, hk₀⟩, hdrop, ih _ hrest fun kv' hkv' k' hk' => ?_]
          · rw [Std.ExtTreeMap.getElem?_insertIfNew, List.mem_cons]
            by_cases hsame : k₀ = k
            · subst hsame
              rw [if_pos ⟨Std.ReflCmp.compare_self, hnew⟩]
              have hnone : (m[k₀]? : Option Bytes) = none :=
                Std.ExtTreeMap.getElem?_eq_none hnew
              rw [hnone]
              constructor
              · rintro (hmem | hv)
                · exact absurd hk₀ (hlater _ hmem)
                · refine .inl (.inl ?_)
                  rw [hk₀, ← Option.some.inj hv]
              · rintro ((heq | hmem) | hv)
                · exact .inr (congrArg (fun kv : Bytes × Bytes =>
                    some kv.2) heq).symm
                · exact absurd hk₀ (hlater _ hmem)
                · cases hv
            · have hne : ¬ (compare k₀ k = .eq ∧ ¬ k₀ ∈ m) := by
                rintro ⟨heq, -⟩
                exact hsame (Std.LawfulEqCmp.eq_of_compare heq)
              have hother : (pre ++ k, v) ≠ kv := by
                rintro rfl
                exact hsame (List.append_cancel_left hk₀)
              rw [if_neg hne, or_iff_right hother]
          · rw [Std.ExtTreeMap.mem_insertIfNew]
            rintro (heq | hmem)
            · have hk := Std.LawfulEqCmp.eq_of_compare heq
              rw [← hk, hk₀] at hk'
              exact hlater kv' hkv' hk'
            · exact hfresh kv' (List.mem_cons_of_mem kv hkv') k' hk' hmem
        · have hother : (pre ++ k, v) ≠ kv := by
            rintro rfl
            exact hpre (List.prefix_append _ _)
          rw [if_neg hpre, ih m hrest fun kv' hkv' =>
            hfresh kv' (List.mem_cons_of_mem kv hkv'), List.mem_cons,
            or_iff_right hother]
  unfold get copyPrefixDomain
  dsimp only
  rw [Std.ExtTreeMap.foldl_eq_foldl_toList]
  refine Option.ext fun v => ?_
  rw [hfold _ ∅ Std.ExtTreeMap.distinct_keys_toList
    fun _ _ _ _ => Std.ExtTreeMap.not_mem_empty,
    Std.ExtTreeMap.getElem?_empty,
    Std.ExtTreeMap.mem_toList_iff_getElem?_eq_some]
  exact or_iff_left (fun h => by cases h)

/-- The prefixes are those of the keys that have a value. -/
theorem ConfigState.mem_getKeyPrefixSet (cs : ConfigState)
    (delimiter : UInt8) (s : Bytes) :
    s ∈ cs.getKeyPrefixSet delimiter
      ↔ ∃ k, (cs.get k).isSome = true ∧ k.takeWhile (· ≠ delimiter) = s := by
  have hfold : ∀ (kvs : List (Bytes × Bytes)) (set : Std.ExtTreeSet Bytes),
      s ∈ kvs.foldl (fun set kv =>
          set.insert (kv.1.takeWhile (· ≠ delimiter))) set
        ↔ s ∈ set ∨ ∃ kv ∈ kvs, kv.1.takeWhile (· ≠ delimiter) = s := by
    intro kvs
    induction kvs with
    | nil => intro set; simp
    | cons kv kvs ih =>
        intro set
        rw [List.foldl_cons, ih, Std.ExtTreeSet.mem_insert,
          Std.LawfulEqCmp.compare_eq_iff_eq, List.exists_mem_cons_iff,
          or_comm (b := s ∈ set), or_assoc]
  unfold getKeyPrefixSet get
  rw [Std.ExtTreeMap.foldl_eq_foldl_toList, hfold]
  constructor
  · rintro (hnone | ⟨kv, hkv, hs⟩)
    · exact absurd hnone Std.ExtTreeSet.not_mem_empty
    · have hget := Std.ExtTreeMap.mem_toList_iff_getElem?_eq_some.mp hkv
      exact ⟨kv.1, by rw [hget]; rfl, hs⟩
  · rintro ⟨k, hsome, hs⟩
    obtain ⟨v, hv⟩ := Option.isSome_iff_exists.mp hsome
    exact .inr ⟨(k, v),
      Std.ExtTreeMap.mem_toList_iff_getElem?_eq_some.mpr hv, hs⟩

end States

-- ===================================================================== paths

/-- The field of a table with a key. -/
def LuaTable.get? : LuaTable → Bytes → Option LuaValue
  | .nil, _ => none
  | .cons key value rest, s =>
      if key.text = some s then some value else rest.get? s

/-- The value at the end of a path. -/
def LuaValue.at : LuaValue → List Bytes → Option LuaValue
  | v, [] => some v
  | .table t, s :: path => (t.get? s).bind fun v => v.at path
  | _, _ :: _ => none

/-- What is written at the end of a path. -/
def LuaValue.leaf (v : LuaValue) (path : List Bytes) : Option Bytes :=
  (v.at path).bind LuaValue.text

mutual

/-- The keys of a table are names without dots, no two the same, and no value
is of a type that cannot be written. -/
def LuaTable.Clean : LuaTable → Prop
  | .nil => True
  | .cons key value rest =>
      (∃ s, key.text = some s ∧ s ≠ [] ∧ dot ∉ s ∧ rest.get? s = none) ∧
        value.Clean ∧ rest.Clean

def LuaValue.Clean : LuaValue → Prop
  | .table t => t.Clean
  | .other => False
  | _ => True

end

/-- The path of a scope: none at the top level. -/
def scopePath (scope : Bytes) : List Bytes :=
  if scope = [] then [] else scope.splitOn dot

/-- The path of a key under a scope, if it is there. -/
def below (scope k : Bytes) : Option (List Bytes) :=
  (k.splitOn dot).dropPrefix? (scopePath scope)

section Paths

/-- A path into a table begins with one of its keys. -/
theorem LuaValue.leaf_cons (t : LuaTable) (s : Bytes) (path : List Bytes) :
    (LuaValue.table t).leaf (s :: path)
      = (t.get? s).bind fun v => v.leaf path := by
  unfold leaf
  rw [LuaValue.at, Option.bind_assoc]

/-- Where a path ends there is a text, or none. -/
theorem LuaValue.leaf_nil (v : LuaValue) : v.leaf [] = v.text := by
  cases v <;> rfl

/-- A value that is no table has nothing under it. -/
theorem LuaValue.leaf_cons_of_text {v : LuaValue} {text : Bytes}
    (h : v.text = some text) (s : Bytes) (path : List Bytes) :
    v.leaf (s :: path) = none := by
  cases v with
  | table t => cases h
  | _ => rfl

/-- A key is one step of a path if there is no dot in it. -/
theorem scopePath_childScope {key : Bytes} (hkey : key ≠ [])
    (hdot : dot ∉ key) (scope : Bytes) :
    scopePath (childScope scope key) = scopePath scope ++ [key] := by
  unfold scopePath childScope
  by_cases hs : scope = []
  · rw [if_pos hs, if_neg hkey, if_pos hs, List.splitOn_eq_singleton hdot]
    rfl
  · have hne : scope ++ dot :: key ≠ [] := by simp
    rw [if_neg hs, if_neg hne, if_neg hs, List.splitOn_append_cons_self,
      List.splitOn_eq_singleton hdot]

/-- A key is below a scope if its path goes on from there. -/
theorem below_eq_some {scope k : Bytes} {path : List Bytes} :
    below scope k = some path ↔ k.splitOn dot = scopePath scope ++ path := by
  unfold below
  rw [List.dropPrefix?_eq_some_iff]
  constructor
  · rintro ⟨p, hk, hp⟩
    rwa [eq_of_beq hp] at hk
  · exact fun h => ⟨scopePath scope, h, BEq.rfl⟩

/-- A key under a field is one whose path goes on with the field. -/
theorem below_childScope {key : Bytes} (hkey : key ≠ []) (hdot : dot ∉ key)
    (scope k : Bytes) :
    below (childScope scope key) k
      = (below scope k).bind fun path =>
          match path with
          | [] => none
          | s :: path => if s = key then some path else none := by
  refine Option.ext fun path => ?_
  rw [below_eq_some, scopePath_childScope hkey hdot, List.append_assoc,
    List.singleton_append, Option.bind_eq_some_iff]
  constructor
  · exact fun h => ⟨key :: path, below_eq_some.mpr h, if_pos rfl⟩
  · rintro ⟨p, hp, hpath⟩
    rw [below_eq_some.mp hp]
    cases p with
    | nil => cases hpath
    | cons s p =>
        dsimp only at hpath
        by_cases hs : s = key
        · rw [if_pos hs] at hpath
          rw [hs, Option.some.inj hpath]
        · rw [if_neg hs] at hpath
          cases hpath

/-- The key of a field that holds no table is the scope itself. -/
theorem below_eq_nil {scope : Bytes} (hscope : scope ≠ []) (k : Bytes) :
    below scope k = some [] ↔ k = scope := by
  rw [below_eq_some, List.append_nil, scopePath, if_neg hscope]
  constructor
  · intro h
    rw [← @List.intercalate_splitOn _ k _ _ dot, h,
      List.intercalate_splitOn]
  · exact congrArg _

/-- Everything is below the whole. -/
theorem below_nil (k : Bytes) : below [] k = some (k.splitOn dot) := by
  rw [below_eq_some, scopePath, if_pos rfl, List.nil_append]

/-- A child has a name. -/
theorem childScope_ne_nil {key : Bytes} (hkey : key ≠ []) (scope : Bytes) :
    childScope scope key ≠ [] := by
  unfold childScope
  by_cases hs : scope = []
  · rwa [if_pos hs]
  · rw [if_neg hs]
    simp

/-- What is under a table is under its first field or under the others. -/
theorem leaf_cons_table {key : LuaKey} {value : LuaValue} {rest : LuaTable}
    {s : Bytes} (hkey : key.text = some s) (hs : s ≠ []) (hdot : dot ∉ s)
    (hnew : rest.get? s = none) (scope k : Bytes) :
    (below scope k).bind (LuaValue.table (.cons key value rest)).leaf
      = ((below scope k).bind (LuaValue.table rest).leaf).or
          ((below (childScope scope s) k).bind value.leaf) := by
  rw [below_childScope hs hdot]
  cases hbelow : below scope k with
  | none => rfl
  | some path =>
      cases path with
      | nil => rfl
      | cons s' path =>
          simp only [Option.bind_some]
          rw [LuaValue.leaf_cons, LuaValue.leaf_cons, LuaTable.get?, hkey]
          by_cases hsame : s' = s
          · rw [if_pos hsame, hsame, if_pos rfl, hnew]
            rfl
          · rw [if_neg hsame, if_neg fun h => hsame (Option.some.inj h).symm]
            exact (Option.or_none).symm

end Paths

-- ================================================================ flattening

section Flattening

/-- A value that is written, under its key. -/
theorem getElem?_insert_leaf {v : LuaValue} {text : Bytes}
    (hv : v.text = some text) {scope : Bytes} (hscope : scope ≠ [])
    (m : ConfigStateBase) (k : Bytes) :
    (m.insert scope text)[k]? = ((below scope k).bind v.leaf).or m[k]? := by
  rw [Std.ExtTreeMap.getElem?_insert]
  by_cases hk : k = scope
  · rw [(below_eq_nil hscope k).mpr hk, hk,
      if_pos Std.ReflCmp.compare_self, Option.bind_some, LuaValue.leaf_nil, hv]
    rfl
  · rw [if_neg fun h => hk (Std.LawfulEqCmp.eq_of_compare h).symm]
    cases hbelow : below scope k with
    | none => rfl
    | some path =>
        cases path with
        | nil => exact absurd ((below_eq_nil hscope k).mp hbelow) hk
        | cons s path =>
            rw [Option.bind_some, LuaValue.leaf_cons_of_text hv]
            rfl

mutual

/-- Flattening a table: its keys are set, and all others stay. -/
theorem flattenLuatable_spec (t : LuaTable) (ht : t.Clean) (scope : Bytes)
    (m : ConfigStateBase) :
    (flattenLuatable scope t m).1 = true ∧
      ∀ k, (flattenLuatable scope t m).2[k]?
        = ((below scope k).bind (LuaValue.table t).leaf).or m[k]? := by
  match t, ht with
  | .nil, _ =>
      refine ⟨rfl, fun k => ?_⟩
      rw [flattenLuatable]
      rcases below scope k with _ | _ | _ <;> rfl
  | .cons key value rest, ⟨⟨s, hkey, hs, hdot, hnew⟩, hvalue, hrest⟩ =>
      obtain ⟨m', hm', hget'⟩ := flattenValue_spec value hvalue
        (childScope_ne_nil hs scope) m
      obtain ⟨hok, hget⟩ := flattenLuatable_spec rest hrest scope m'
      rw [flattenLuatable, hkey]
      dsimp only
      rw [hm']
      dsimp only
      refine ⟨by rw [hok]; rfl, fun k => ?_⟩
      rw [hget, hget', leaf_cons_table hkey hs hdot hnew, Option.or_assoc]

/-- Flattening a value, by the same induction. -/
theorem flattenValue_spec (v : LuaValue) (hv : v.Clean) {scope : Bytes}
    (hscope : scope ≠ []) (m : ConfigStateBase) :
    ∃ m', flattenValue scope v m = some (true, m') ∧
      ∀ k, m'[k]? = ((below scope k).bind v.leaf).or m[k]? := by
  match v, hv with
  | .boolean b, _ =>
      exact ⟨_, by rw [flattenValue], getElem?_insert_leaf rfl hscope m⟩
  | .number text, _ =>
      exact ⟨_, by rw [flattenValue], getElem?_insert_leaf rfl hscope m⟩
  | .string s, _ =>
      exact ⟨_, by rw [flattenValue], getElem?_insert_leaf rfl hscope m⟩
  | .table t, ht =>
      obtain ⟨hok, hget⟩ := flattenLuatable_spec t ht scope m
      refine ⟨(flattenLuatable scope t m).2, ?_, hget⟩
      rw [flattenValue, ← hok]

end

end Flattening

-- ================================================================== loading

section Loading

/-- A field of a clean table has a name, and a clean value. -/
theorem LuaTable.clean_get? {t : LuaTable} (ht : t.Clean) {s : Bytes}
    {v : LuaValue} (h : t.get? s = some v) : dot ∉ s ∧ v.Clean := by
  match t, ht with
  | .nil, _ => cases h
  | .cons key value rest, ⟨⟨s', hkey, _, hdot, _⟩, hvalue, hrest⟩ =>
      rw [LuaTable.get?, hkey] at h
      by_cases hs : s' = s
      · rw [if_pos (congrArg some hs)] at h
        exact ⟨hs ▸ hdot, Option.some.inj h ▸ hvalue⟩
      · rw [if_neg fun heq => hs (Option.some.inj heq)] at h
        exact LuaTable.clean_get? hrest h

/-- A path in two pieces. -/
theorem LuaValue.at_append (v : LuaValue) (p q : List Bytes) :
    v.at (p ++ q) = (v.at p).bind fun w => w.at q := by
  induction p generalizing v with
  | nil => rfl
  | cons s p ih =>
      cases v with
      | table t =>
          rw [List.cons_append, LuaValue.at, LuaValue.at, Option.bind_assoc]
          exact congrArg _ (funext ih)
      | _ => rfl

/-- The names on a path through a clean value have no dots. -/
theorem LuaValue.clean_at {v w : LuaValue} (hv : v.Clean) {path : List Bytes}
    (h : v.at path = some w) : w.Clean ∧ ∀ s ∈ path, dot ∉ s := by
  induction path generalizing v with
  | nil =>
      rw [LuaValue.at] at h
      exact ⟨Option.some.inj h ▸ hv, fun _ hs => by cases hs⟩
  | cons s path ih =>
      cases v with
      | table t =>
          rw [LuaValue.at] at h
          obtain ⟨u, hu, hw⟩ := Option.bind_eq_some_iff.mp h
          obtain ⟨hdot, hclean⟩ := LuaTable.clean_get? hv hu
          obtain ⟨hw', hpath⟩ := ih hclean hw
          exact ⟨hw', List.forall_mem_cons.mpr ⟨hdot, hpath⟩⟩
      | _ => cases h

/-- The first part of a key is what stands before its first dot. -/
theorem head?_splitOn (k : Bytes) :
    (k.splitOn dot).head? = some (k.takeWhile (· ≠ dot)) := by
  induction k with
  | nil => rfl
  | cons b k ih =>
      rw [List.splitOn_cons_eq_if_modifyHead]
      by_cases hb : b = dot
      · rw [if_pos (beq_iff_eq.mpr hb), List.takeWhile_cons,
          if_neg (by simp [hb])]
        rfl
      · rw [if_neg (by simp [hb]), List.takeWhile_cons,
          if_pos (by simp [hb]), List.head?_modifyHead, ih]
        rfl

namespace Config

variable (c : Config)

/-- An update takes over all of the new state. -/
theorem update_base (newState : ConfigState) :
    (c.update newState).1.storage.base = newState.base := by
  unfold update
  split
  · assumption
  · rfl

/-- A key is found where the table has its path, and else as it was. -/
theorem get_loadLuaFile {t : LuaTable} (ht : t.Clean) (k : Bytes) :
    (c.loadLuaFile (some t)).1.storage.get k
      = ((LuaValue.table t).leaf (k.splitOn dot)).or (c.storage.get k) := by
  obtain ⟨hok, hget⟩ := flattenLuatable_spec t ht [] c.storage.base
  unfold loadLuaFile ConfigState.get
  dsimp only
  rw [if_pos hok, update_base, hget, below_nil, Option.bind_some]

end Config

/-- The first names of the keys are the fields that hold anything. -/
theorem mem_getKeyPrefixSet_leaf {t : LuaTable} {cs : ConfigState}
    (ht : t.Clean)
    (hcs : ∀ k, cs.get k = (LuaValue.table t).leaf (k.splitOn dot))
    (s : Bytes) :
    s ∈ cs.getKeyPrefixSet dot
      ↔ ∃ v, t.get? s = some v ∧ ∃ path, (v.leaf path).isSome = true := by
  rw [ConfigState.mem_getKeyPrefixSet]
  constructor
  · rintro ⟨k, hk, hs⟩
    rw [hcs] at hk
    have hhead := head?_splitOn k
    cases hpath : k.splitOn dot with
    | nil => exact absurd hpath (List.splitOn_ne_nil dot k)
    | cons s' path =>
        rw [hpath, List.head?_cons, hs] at hhead
        rw [hpath, LuaValue.leaf_cons, Option.some.inj hhead] at hk
        obtain ⟨text, htext⟩ := Option.isSome_iff_exists.mp hk
        obtain ⟨v, hv, hleaf⟩ := Option.bind_eq_some_iff.mp htext
        exact ⟨v, hv, path, by rw [hleaf]; rfl⟩
  · rintro ⟨v, hv, path, hleaf⟩
    obtain ⟨hdot, hclean⟩ := LuaTable.clean_get? ht hv
    obtain ⟨text, htext⟩ := Option.isSome_iff_exists.mp hleaf
    obtain ⟨w, hw, -⟩ := Option.bind_eq_some_iff.mp htext
    have hnames : ∀ c ∈ s :: path, dot ∉ c :=
      List.forall_mem_cons.mpr ⟨hdot, (LuaValue.clean_at hclean hw).2⟩
    have hsplit := List.splitOn_intercalate dot hnames (by simp)
    refine ⟨[dot].intercalate (s :: path), ?_, ?_⟩
    · rw [hcs, hsplit, LuaValue.leaf_cons, hv]
      exact hleaf
    · have hhead := head?_splitOn ([dot].intercalate (s :: path))
      rw [hsplit, List.head?_cons] at hhead
      exact (Option.some.inj hhead).symm

/-- `oe = { sessions = { B = "y" } }` -/
private def demoTable : LuaTable :=
  .cons (.string [111, 101]) (.table
    (.cons (.string [115]) (.table
      (.cons (.string [66]) (.string [121]) .nil)) .nil)) .nil

private theorem demoTable_clean : demoTable.Clean :=
  ⟨⟨_, rfl, by decide, by decide, rfl⟩,
    ⟨⟨_, rfl, by decide, by decide, rfl⟩,
      ⟨⟨_, rfl, by decide, by decide, rfl⟩, trivial, trivial⟩, trivial⟩,
    trivial⟩

end Loading

-- ================================================================ listeners

section Listeners

/-- What one listener is told of a change. -/
def told (l : Nat) (notices : List ConfigNotice) : List ConfigNotice :=
  notices.filter (·.listener = l)

/-- Notices that lead from one state to another: each tells the state that
the one before it left, and a state with other contents and the next
version. -/
def Chain (s : ConfigState) : List ConfigNotice → ConfigState → Prop
  | [], s' => s' = s
  | n :: ns, s' =>
      n.old = s ∧ n.new.base ≠ s.base ∧ n.new.version = s.version + 1 ∧
        Chain n.new ns s'

/-- Notices over two calls. -/
theorem Chain.append {s s' s'' : ConfigState} {ns ns' : List ConfigNotice}
    (h : Chain s ns s') (h' : Chain s' ns' s'') : Chain s (ns ++ ns') s'' := by
  induction ns generalizing s with
  | nil =>
      rw [Chain] at h
      rwa [h] at h'
  | cons n ns ih =>
      obtain ⟨hold, hbase, hversion, hrest⟩ := h
      exact ⟨hold, hbase, hversion, ih hrest⟩

/-- The last state of a chain is as many versions on as there are notices. -/
theorem Chain.version {s s' : ConfigState} {ns : List ConfigNotice}
    (h : Chain s ns s') :
    s'.version = s.version + UInt64.ofNat ns.length := by
  induction ns generalizing s with
  | nil =>
      rw [Chain] at h
      rw [h]
      simp
  | cons n ns ih =>
      obtain ⟨-, -, hversion, hrest⟩ := h
      rw [ih hrest, hversion, List.length_cons, UInt64.ofNat_add,
        UInt64.add_assoc, UInt64.add_comm 1]
      rfl

/-- A change told to all tells each listener once. -/
theorem told_all (s : Finset Nat) (l : Nat) (old new : ConfigState) :
    told l ((s.sort (· ≤ ·)).map fun l => ⟨l, old, new⟩)
      = if l ∈ s then [⟨l, old, new⟩] else [] := by
  have hfilter : ∀ ls : List Nat, ls.Nodup →
      told l (ls.map fun l => ⟨l, old, new⟩)
        = if l ∈ ls then [⟨l, old, new⟩] else [] := by
    intro ls hls
    induction ls with
    | nil => rfl
    | cons l' ls ih =>
        obtain ⟨hnew, hnodup⟩ := List.nodup_cons.mp hls
        unfold told at ih ⊢
        rw [List.map_cons, List.filter_cons, ih hnodup]
        by_cases hl : l' = l
        · subst hl
          rw [if_pos (by simp), if_neg hnew, if_pos List.mem_cons_self]
        · rw [if_neg (by simpa using hl)]
          simp [Ne.symm hl]
  rw [hfilter _ (Finset.sort_nodup s _)]
  simp only [Finset.mem_sort]

namespace Config

variable (c : Config)

/-- Either nothing changes, or every listener is told of the change. -/
theorem update_cases (newState : ConfigState) :
    c.update newState = (c, []) ∨
    ∃ storage : ConfigState, storage.base ≠ c.storage.base ∧
      storage.version = c.storage.version + 1 ∧
      c.update newState = ({ c with storage },
        (c.listeners.sort (· ≤ ·)).map fun l => ⟨l, c.storage, storage⟩) := by
  unfold update
  split
  · exact .inl rfl
  · rename_i hne
    exact .inr ⟨{ newState with version := c.storage.version + 1 },
      fun h => hne h.symm, rfl, rfl⟩

/-- A copy does nothing or updates once. -/
theorem copyKey_cases (srcKey dstDomain : Bytes) (overwrite : Bool)
    (delimiter : UInt8) :
    c.copyKey srcKey dstDomain overwrite delimiter = (c, []) ∨
    ∃ newState,
      c.copyKey srcKey dstDomain overwrite delimiter = c.update newState := by
  unfold copyKey
  cases c.storage.get srcKey with
  | none => exact .inl rfl
  | some value =>
      dsimp only
      split
      · exact .inl rfl
      · exact .inr ⟨_, rfl⟩

/-- So does a file. -/
theorem loadLuaFile_cases (table : Option LuaTable) :
    c.loadLuaFile table = (c, []) ∨
    ∃ newState, c.loadLuaFile table = c.update newState := by
  cases table with
  | none => exact .inl rfl
  | some t =>
      unfold loadLuaFile
      dsimp only
      split
      · exact .inr ⟨_, rfl⟩
      · exact .inl rfl

/-- A call changes who listens, or it is an update, or it does nothing. -/
theorem call_cases (e : ConfigCall) :
    (∃ l, e = .subscribe l ∧
      c.call e = ({ c with listeners := insert l c.listeners }, [])) ∨
    (∃ l, e = .unsubscribe l ∧
      c.call e = ({ c with listeners := c.listeners.erase l }, [])) ∨
    c.call e = (c, []) ∨ ∃ newState, c.call e = c.update newState := by
  cases e with
  | subscribe l => exact .inl ⟨l, rfl, rfl⟩
  | unsubscribe l => exact .inr (.inl ⟨l, rfl, rfl⟩)
  | copyKey src dst overwrite delimiter =>
      exact .inr (.inr (c.copyKey_cases src dst overwrite delimiter))
  | loadLuaFile table => exact .inr (.inr (c.loadLuaFile_cases table))
  | loadStrings strs => exact .inr (.inr (.inr ⟨_, rfl⟩))
  | loadEnviron pre env => exact .inr (.inr (.inr ⟨_, rfl⟩))
  | loadVariablesMap vm => exact .inr (.inr (.inr ⟨_, rfl⟩))
  | reset => exact .inr (.inr (.inr ⟨_, rfl⟩))

/-- What one call tells a listener, and one who is not listening. -/
theorem told_call (e : ConfigCall) (l : Nat) :
    (l ∈ c.listeners → e ≠ .unsubscribe l →
      l ∈ (c.call e).1.listeners ∧
      Chain c.storage (told l (c.call e).2) (c.call e).1.storage) ∧
    (l ∉ c.listeners → e ≠ .subscribe l →
      l ∉ (c.call e).1.listeners ∧ told l (c.call e).2 = []) := by
  rcases c.call_cases e with ⟨l', rfl, hcall⟩ | ⟨l', rfl, hcall⟩ |
    hcall | ⟨s, hcall⟩
  · rw [hcall]
    refine ⟨fun hl _ => ⟨Finset.mem_insert_of_mem hl, rfl⟩, ?_⟩
    intro hl hne
    refine ⟨fun hmem => ?_, rfl⟩
    rcases Finset.mem_insert.mp hmem with heq | hmem
    · exact hne (congrArg _ heq.symm)
    · exact hl hmem
  · rw [hcall]
    refine ⟨?_, fun hl _ => ⟨fun hmem => hl (Finset.mem_of_mem_erase hmem),
      rfl⟩⟩
    intro hl hne
    exact ⟨Finset.mem_erase.mpr ⟨fun heq => hne (congrArg _ heq.symm), hl⟩,
      rfl⟩
  · rw [hcall]
    exact ⟨fun hl _ => ⟨hl, rfl⟩, fun hl _ => ⟨hl, rfl⟩⟩
  · rw [hcall]
    rcases c.update_cases s with hsame | ⟨storage, hbase, hversion, hupdate⟩
    · rw [hsame]
      exact ⟨fun hl _ => ⟨hl, rfl⟩, fun hl _ => ⟨hl, rfl⟩⟩
    · rw [hupdate]
      dsimp only
      rw [told_all]
      refine ⟨fun hl _ => ⟨hl, ?_⟩, fun hl _ => ⟨hl, if_neg hl⟩⟩
      rw [if_pos hl]
      exact ⟨rfl, hbase, hversion, rfl⟩

end Config

/-- One who listens all the while is told a chain of states, and one who does
not is told nothing. -/
theorem told_notices (c : Config) (calls : List ConfigCall) (l : Nat) :
    (l ∈ c.listeners → ConfigCall.unsubscribe l ∉ calls →
      Chain c.storage (told l (c.notices calls)) (c.after calls).storage) ∧
    (l ∉ c.listeners → ConfigCall.subscribe l ∉ calls →
      told l (c.notices calls) = []) := by
  induction calls generalizing c with
  | nil => exact ⟨fun _ _ => rfl, fun _ _ => rfl⟩
  | cons e calls ih =>
      obtain ⟨hin, hout⟩ := c.told_call e l
      have hsplit : told l (c.notices (e :: calls))
          = told l (c.call e).2 ++ told l ((c.call e).1.notices calls) := by
        rw [Config.notices]
        exact List.filter_append ..
      rw [hsplit]
      constructor
      · intro hl hnone
        obtain ⟨hne, hrest⟩ := not_or.mp (mt List.mem_cons.mpr hnone)
        obtain ⟨hl', hchain⟩ := hin hl (Ne.symm hne)
        exact hchain.append ((ih (c.call e).1).1 hl' hrest)
      · intro hl hnone
        obtain ⟨hne, hrest⟩ := not_or.mp (mt List.mem_cons.mpr hnone)
        obtain ⟨hl', htold⟩ := hout hl (Ne.symm hne)
        rw [htold, (ih (c.call e).1).2 hl' hrest]
        rfl

/-- One who listens all the while is told a chain of states from the first to
the last: no change is missed or told twice, no notice is without a change,
and the version counts the notices. One who does not listen is told
nothing. -/
theorem listeners_follow (c : Config) (calls : List ConfigCall) (l : Nat) :
    (l ∈ c.listeners → ConfigCall.unsubscribe l ∉ calls →
      Chain c.storage (told l (c.notices calls)) (c.after calls).storage ∧
      (c.after calls).storage.version = c.storage.version
        + UInt64.ofNat (told l (c.notices calls)).length) ∧
    (l ∉ c.listeners → ConfigCall.subscribe l ∉ calls →
      told l (c.notices calls) = []) := by
  obtain ⟨hin, hout⟩ := told_notices c calls l
  exact ⟨fun hl hnone => ⟨hin hl hnone, (hin hl hnone).version⟩, hout⟩

/-- Two values loaded and one of them again, to one who listens. -/
theorem listeners_follow_demo :
    let c := (Config.init.call (.subscribe 1)).1
    let calls : List ConfigCall := [.loadStrings [([97], [49])],
      .loadStrings [([97], [49])], .loadStrings [([98], [50])]]
    1 ∈ c.listeners ∧
      Chain c.storage (told 1 (c.notices calls)) (c.after calls).storage ∧
      told 2 (c.notices calls) = [] :=
  ⟨by decide,
    ((listeners_follow (Config.init.call (.subscribe 1)).1
      [.loadStrings [([97], [49])], .loadStrings [([97], [49])],
        .loadStrings [([98], [50])]] 1).1 (by decide) (by simp)).1,
    (listeners_follow (Config.init.call (.subscribe 1)).1
      [.loadStrings [([97], [49])], .loadStrings [([97], [49])],
        .loadStrings [([98], [50])]] 2).2 (by decide) (by simp)⟩

end Listeners

end TradingEngine.Core

/-
  StarryOS.Ipc.BiBTreeMap — THE TWO HALVES OF A `BiBTreeMap`
  (`kernel/src/syscall/ipc/shm.rs`).

  Nothing ties the two maps of the source together but the order in which
  `insert` updates them: the reverse map first, then the forward map without the
  key that had the value.  After every sequence of calls they are the two
  directions of one bijection (`biBTreeMap_is_a_bijection`), which is why the
  tables of `Ipc.Shm` may use `Lib.BiMap`, where this is a field.
-/
import StarryOS.Lib.BiMap

namespace StarryOS.Ipc

open Lib

/-- Two maps, one the inverse of the other. -/
structure BiBTreeMap (K V : Type) [LinearOrder K] [LinearOrder V] where
  forward : OrdMap K V
  reverse : OrdMap V K

namespace BiBTreeMap

variable {K V : Type} [LinearOrder K] [LinearOrder V] {m : BiBTreeMap K V}

def new : BiBTreeMap K V := ⟨.empty, .empty⟩

/-- Old pairs of the key and of the value go. -/
def insert (m : BiBTreeMap K V) (key : K) (value : V) : BiBTreeMap K V :=
  let oldKey := m.reverse.lookup value
  let reverse := m.reverse.alter value (fun _ => some key)
  let forward := BiMap.dropKey oldKey m.forward
  let oldValue := forward.lookup key
  ⟨forward.alter key (fun _ => some value), BiMap.dropKey oldValue reverse⟩

def removeByKey (m : BiBTreeMap K V) (key : K) : Option V × BiBTreeMap K V :=
  match m.forward.lookup key with
  | some value =>
    (some value, ⟨m.forward.alter key (fun _ => none), m.reverse.alter value (fun _ => none)⟩)
  | none => (none, m)

def swap (m : BiBTreeMap K V) : BiBTreeMap V K := ⟨m.reverse, m.forward⟩

/-- `remove_by_key` with the maps exchanged. -/
def removeByValue (m : BiBTreeMap K V) (value : V) : Option K × BiBTreeMap K V :=
  let r := m.swap.removeByKey value
  (r.1, r.2.swap)

inductive Call (K V : Type) where
  | insert (key : K) (value : V)
  | removeByKey (key : K)
  | removeByValue (value : V)

def apply (m : BiBTreeMap K V) : Call K V → BiBTreeMap K V
  | .insert key value => m.insert key value
  | .removeByKey key => (m.removeByKey key).2
  | .removeByValue value => (m.removeByValue value).2

/-- Each map is the reverse of the other. -/
def Agrees (m : BiBTreeMap K V) : Prop :=
  ∀ k v, m.forward.lookup k = some v ↔ m.reverse.lookup v = some k

/-- Maps that agree are a `BiMap`, and `insert` does to them what it does there. -/
def Agrees.toBiMap (h : m.Agrees) : BiMap K V := ⟨m.forward, m.reverse, h⟩

theorem Agrees.removeByKey (h : m.Agrees) (key : K) : (m.removeByKey key).2.Agrees := by
  intro k v
  have hkv := h k v
  unfold BiBTreeMap.removeByKey
  cases hkey : m.forward.lookup key with
  | none => exact hkv
  | some value =>
    have hvalue := (h key value).mp hkey
    have hkey' := h key v
    simp only [OrdMap.lookup_alter]
    grind

/-- **Every call keeps the maps in agreement.** -/
theorem Agrees.apply (h : m.Agrees) (call : Call K V) : (m.apply call).Agrees := by
  cases call with
  | insert key value => exact (h.toBiMap.insert key value).agree
  | removeByKey key => exact h.removeByKey key
  | removeByValue value =>
    have hswap : m.swap.Agrees := fun v k => (h k v).symm
    exact fun k v => (hswap.removeByKey value v k).symm

theorem agrees_foldl (calls : List (Call K V)) : (calls.foldl apply new).Agrees := by
  have hnew : (new : BiBTreeMap K V).Agrees := BiMap.empty.agree
  generalize (new : BiBTreeMap K V) = m at hnew
  induction calls generalizing m with
  | nil => exact hnew
  | cons call calls ih => exact ih _ (hnew.apply call)

/-- **A `BiBTreeMap` IS A BIJECTION.**  After every sequence of calls, a key has a value if and
only if the value has the key; and an insertion leaves the pairs that mention neither its key
nor its value, and adds its own. -/
theorem biBTreeMap_is_a_bijection (calls : List (Call K V)) :
    (calls.foldl apply new).Agrees ∧ ∀ key value k v,
      ((calls.foldl apply new).insert key value).forward.lookup k = some v
        ↔ k = key ∧ v = value
          ∨ k ≠ key ∧ v ≠ value ∧ (calls.foldl apply new).forward.lookup k = some v := by
  have hagrees := agrees_foldl calls
  refine ⟨hagrees, ?_⟩
  intro key value k v
  have hinsert := BiMap.getByKey_insert key value hagrees.toBiMap k
  show (hagrees.toBiMap.insert key value).getByKey k = some v
    ↔ _ ∨ _ ∧ _ ∧ hagrees.toBiMap.getByKey k = some v
  rw [hinsert]
  grind

end BiBTreeMap

end StarryOS.Ipc

/-
  StarryOS.Lib.BiMap — A MAP THAT IS SEARCHED IN BOTH DIRECTIONS: two ordered
  maps, each the reverse of the other.

  That the two agree is a field, so no operation can leave one of them behind.
  An insertion takes out what the key and the value were paired with before.
-/
import StarryOS.Lib.OrdMap

namespace StarryOS.Lib

/-- Pairs of keys and values, none of which occurs twice. -/
structure BiMap (K V : Type) [LinearOrder K] [LinearOrder V] where
  forward : OrdMap K V
  reverse : OrdMap V K
  agree : ∀ k v, forward.lookup k = some v ↔ reverse.lookup v = some k

namespace BiMap

variable {K V : Type} [LinearOrder K] [LinearOrder V]

def empty : BiMap K V where
  forward := .empty
  reverse := .empty
  agree := by
    intro k v
    simp [OrdMap.empty]

instance : Inhabited (BiMap K V) := ⟨empty⟩

def getByKey (m : BiMap K V) (k : K) : Option V := m.forward.lookup k

def getByValue (m : BiMap K V) (v : V) : Option K := m.reverse.lookup v

theorem getByValue_eq_some_iff (m : BiMap K V) (k : K) (v : V) :
    m.getByValue v = some k ↔ m.getByKey k = some v := (m.agree k v).symm

theorem key_unique (m : BiMap K V) {j k : K} {v : V} (hj : m.getByKey j = some v)
    (hk : m.getByKey k = some v) : j = k := by
  have hj' := (m.getByValue_eq_some_iff j v).mpr hj
  have hk' := (m.getByValue_eq_some_iff k v).mpr hk
  exact Option.some.inj (hj'.symm.trans hk')

/-- The forward map without an old key. -/
def dropKey (k : Option K) (m : OrdMap K V) : OrdMap K V :=
  match k with
  | some k => m.alter k (fun _ => none)
  | none => m

omit [LinearOrder V] in
theorem lookup_dropKey (k : Option K) (m : OrdMap K V) (j : K) :
    (dropKey k m).lookup j = if k = some j then none else m.lookup j := by
  cases k with
  | none => rfl
  | some k =>
    unfold dropKey
    grind

/-- Inserts a pair; what the key and the value were paired with is gone. -/
def insert (k : K) (v : V) (m : BiMap K V) : BiMap K V where
  forward := (dropKey (m.reverse.lookup v) m.forward).alter k (fun _ => some v)
  reverse := dropKey ((dropKey (m.reverse.lookup v) m.forward).lookup k)
    (m.reverse.alter v (fun _ => some k))
  agree := by
    intro j w
    rw [OrdMap.lookup_alter, lookup_dropKey, lookup_dropKey, lookup_dropKey, OrdMap.lookup_alter]
    have hjw := m.agree j w
    have hkw := m.agree k w
    have hjv := m.agree j v
    have hkv := m.agree k v
    grind

/-- Removes the pair of a value. -/
def removeByValue (v : V) (m : BiMap K V) : BiMap K V where
  forward := dropKey (m.reverse.lookup v) m.forward
  reverse := m.reverse.alter v (fun _ => none)
  agree := by
    intro j w
    rw [OrdMap.lookup_alter, lookup_dropKey]
    have hjw := m.agree j w
    have hjv := m.agree j v
    grind

/-- Without a value, a key is found unless it had this value. -/
theorem lookup_dropValue (v : V) (m : BiMap K V) (j : K) :
    (dropKey (m.reverse.lookup v) m.forward).lookup j
      = if m.getByKey j = some v then none else m.getByKey j := by
  have hiff : m.reverse.lookup v = some j ↔ m.getByKey j = some v := (m.agree j v).symm
  rw [lookup_dropKey]
  by_cases hv : m.getByKey j = some v
  · rw [if_pos (hiff.mpr hv), if_pos hv]
  · rw [if_neg (fun h => hv (hiff.mp h)), if_neg hv]
    rfl

theorem getByKey_insert (k : K) (v : V) (m : BiMap K V) (j : K) : (m.insert k v).getByKey j
      = if j = k then some v else if m.getByKey j = some v then none else m.getByKey j := by
  show ((dropKey (m.reverse.lookup v) m.forward).alter k (fun _ => some v)).lookup j = _
  rw [OrdMap.lookup_alter, lookup_dropValue]

theorem getByKey_removeByValue (v : V) (m : BiMap K V) (j : K) :
    (m.removeByValue v).getByKey j = if m.getByKey j = some v then none else m.getByKey j :=
  lookup_dropValue v m j

end BiMap

end StarryOS.Lib

import Mathlib.Data.List.AList
import Symm.Broker.Position

/-!
# The open and closed caches of a tier (`broker/cache.go`)

`positions["open"]` and `positions["closed"]` are maps from a symbol to a
`*Position`; here from a symbol to the address of a lot. Go iterates a map in
an arbitrary order. It matters to the mean of a tier alone (`MapOrder`); no other
result below depends on it.

A symbol has one place in each map. `add` leaves a symbol that is taken alone, `remove`
writes over the closed lot that was there, and `drop` forgets the symbol in both: the
three are all that a tier does to its caches, and what is lost there is lost in them.

The lookup lemmas say what each of the three leaves at the symbol and at the others. The
modules on tiers use these and do not unfold the operations.
-/

namespace Symm.Broker

/-- A Go `map[string]*Position`. -/
abbrev LotMap := AList fun _ : String => LotId

/-- `Cache`. -/
structure Cache where
  opened : LotMap
  closed : LotMap

namespace Cache

def empty : Cache := ⟨∅, ∅⟩

/-- `Cache.Has`: a lot of the symbol is open. -/
def has (cache : Cache) (symbol : String) : Bool := (cache.opened.lookup symbol).isSome

/-- `Cache.Open(symbol)`. -/
def openOf (cache : Cache) (symbol : String) : List LotId :=
  (cache.opened.lookup symbol).toList

/-- `Cache.Closed(symbol)`. -/
def closedOf (cache : Cache) (symbol : String) : List LotId :=
  (cache.closed.lookup symbol).toList

/-- `Cache.All(symbol)`: the open lot, then the closed one. -/
def all (cache : Cache) (symbol : String) : List LotId :=
  cache.openOf symbol ++ cache.closedOf symbol

/-- `Cache.Open()` without symbols. -/
def openAll (cache : Cache) : List LotId := cache.opened.entries.map Sigma.snd

/-- `Cache.Closed()` without symbols. -/
def closedAll (cache : Cache) : List LotId := cache.closed.entries.map Sigma.snd

/-- `Cache.Add` into the open map: an empty symbol or a symbol already held
changes nothing. -/
def add (cache : Cache) (symbol : String) (lot : LotId) : Cache :=
  if symbol = "" ∨ cache.has symbol then cache
  else { cache with opened := cache.opened.insert symbol lot }

/-- `Cache.Remove`: the open lot of the symbol becomes its closed one. -/
def remove (cache : Cache) (symbol : String) : Cache :=
  match cache.opened.lookup symbol with
  | none => cache
  | some lot => ⟨cache.opened.erase symbol, cache.closed.insert symbol lot⟩

/-- `Cache.Drop`: forget the symbol in both maps. -/
def drop (cache : Cache) (symbol : String) : Cache :=
  ⟨cache.opened.erase symbol, cache.closed.erase symbol⟩

theorem mem_all {cache : Cache} {symbol : String} {lot : LotId} :
    lot ∈ cache.all symbol ↔
      cache.opened.lookup symbol = some lot ∨ cache.closed.lookup symbol = some lot := by
  simp [all, openOf, closedOf]

theorem has_eq_false {cache : Cache} {symbol : String} :
    cache.has symbol = false ↔ cache.opened.lookup symbol = none := by
  simp [has]

theorem remove_of_lookup {cache : Cache} {symbol : String} {lot : LotId}
    (h : cache.opened.lookup symbol = some lot) :
    cache.remove symbol = ⟨cache.opened.erase symbol, cache.closed.insert symbol lot⟩ := by
  simp only [remove, h]

theorem remove_of_absent {cache : Cache} {symbol : String}
    (h : cache.opened.lookup symbol = none) : cache.remove symbol = cache := by
  simp only [remove, h]

/-- A lot of a symbol that is free is the open one. -/
theorem add_of_free {cache : Cache} {symbol : String} {lot : LotId}
    (hs : symbol ≠ "") (h : cache.opened.lookup symbol = none) :
    cache.add symbol lot = { cache with opened := cache.opened.insert symbol lot } := by
  simp [add, has, hs, h]

@[simp] theorem add_closed (cache : Cache) (symbol : String) (lot : LotId) :
    (cache.add symbol lot).closed = cache.closed := by
  unfold add
  split <;> rfl

/-- Adding only adds: a symbol already held keeps its lot. -/
theorem lookup_add {cache : Cache} {symbol s : String} {lot id : LotId}
    (h : (cache.add symbol lot).opened.lookup s = some id) :
    cache.opened.lookup s = some id ∨ (s = symbol ∧ id = lot) := by
  unfold add at h
  split at h
  · exact .inl h
  · by_cases hs : s = symbol
    · subst hs
      rw [AList.lookup_insert] at h
      exact .inr ⟨rfl, (Option.some.inj h).symm⟩
    · rw [AList.lookup_insert_ne hs] at h
      exact .inl h

/-- After `Remove` the symbol has no open lot and every other symbol keeps its. -/
theorem lookup_remove_opened (cache : Cache) (symbol s : String) :
    (cache.remove symbol).opened.lookup s =
      if s = symbol then none else cache.opened.lookup s := by
  cases h : cache.opened.lookup symbol with
  | none =>
    rw [remove_of_absent h]
    by_cases hs : s = symbol
    · rw [if_pos hs, hs, h]
    · rw [if_neg hs]
  | some lot =>
    rw [remove_of_lookup h]
    by_cases hs : s = symbol
    · rw [if_pos hs, hs, AList.lookup_erase]
    · rw [if_neg hs, AList.lookup_erase_ne hs]

/-- The closed lot of the symbol is then the one that was open, if one was. -/
theorem lookup_remove_closed (cache : Cache) (symbol s : String) :
    (cache.remove symbol).closed.lookup s =
      if s = symbol then (cache.opened.lookup symbol).or (cache.closed.lookup symbol)
      else cache.closed.lookup s := by
  cases h : cache.opened.lookup symbol with
  | none =>
    rw [remove_of_absent h]
    by_cases hs : s = symbol
    · rw [if_pos hs, hs, Option.none_or]
    · rw [if_neg hs]
  | some lot =>
    rw [remove_of_lookup h]
    by_cases hs : s = symbol
    · rw [if_pos hs, hs, AList.lookup_insert, Option.some_or]
    · rw [if_neg hs, AList.lookup_insert_ne hs]

/-- A second `Remove` of the same symbol does nothing. -/
@[simp] theorem remove_remove (cache : Cache) (symbol : String) :
    (cache.remove symbol).remove symbol = cache.remove symbol :=
  remove_of_absent (by rw [lookup_remove_opened, if_pos rfl])

/-- The lots of a map are those some symbol is mapped to. -/
theorem mem_lots {lots : LotMap} {id : LotId} :
    id ∈ lots.entries.map Sigma.snd ↔ ∃ s, lots.lookup s = some id := by
  rw [List.mem_map]
  constructor
  · rintro ⟨⟨s, lot⟩, hmem, rfl⟩
    exact ⟨s, AList.mem_lookup_iff.mpr hmem⟩
  · rintro ⟨s, hs⟩
    exact ⟨⟨s, id⟩, AList.mem_lookup_iff.mp hs, rfl⟩

theorem mem_closedAll {cache : Cache} {id : LotId} :
    id ∈ cache.closedAll ↔ ∃ s, cache.closed.lookup s = some id := mem_lots

theorem mem_openAll {cache : Cache} {id : LotId} :
    id ∈ cache.openAll ↔ ∃ s, cache.opened.lookup s = some id := mem_lots

end Cache

end Symm.Broker

/-
The settings of an environment and their written form.

Everything has a default: no cache, ten steps beyond the node count, and a check of
the catalog's signatures.
-/
import Dataflow.Json.Shape
import Dataflow.MemoCache
namespace Dataflow

/-- The settings of an environment. -/
structure Config where
  /-- The cache, if there is one. -/
  cache : Option CacheConfig
  /-- The steps granted to every run beyond its node count. -/
  budgetSlack : UInt64
  /-- Whether colliding names in signatures are noted. -/
  checkCatalog : Bool
  deriving DecidableEq

namespace CacheConfig

/-- A cache for programs only. -/
def ofMax (max : UInt64) : CacheConfig := ⟨max, true⟩

/-- The written form of the settings of a cache. -/
def toJson (c : CacheConfig) : Json :=
  .object [("max", .ofNat c.max.toNat), ("restrictToPrograms", .bool c.restrictToPrograms)]

/-- Settings of a cache that are being read. -/
structure Form where
  max : Option UInt64 := none
  restrictToPrograms : Option Bool := none

/-- The shape of the settings of a cache. -/
def shape : Shape Form CacheConfig where
  fields := [
    .slot "max" Form.max (fun form max => { form with max }) Draft.asSize,
    .slot "restrictToPrograms" Form.restrictToPrograms
      (fun form restrictToPrograms => { form with restrictToPrograms }) Draft.asBool]
  blank := {}
  finish form := do
    let max ← form.max
    return ⟨max, form.restrictToPrograms.getD true⟩

/-- Read the settings of a cache. -/
def read : Draft → Except Fault CacheConfig := shape.read

end CacheConfig

namespace Config

/-- The default settings. -/
def default : Config := ⟨none, 10, true⟩

instance : Inhabited Config := ⟨default⟩

/-- The settings with a cache for programs. -/
def withCache (c : Config) (max : UInt64) : Config := { c with cache := some (.ofMax max) }

/-- The written form of the settings. -/
def toJson (c : Config) : Json :=
  .object [
    ("cache", match c.cache with
      | none => .null
      | some cache => cache.toJson),
    ("budgetSlack", .ofNat c.budgetSlack.toNat),
    ("checkCatalog", .bool c.checkCatalog)]

/-- Settings that are being read. -/
structure Form where
  cache : Option (Option CacheConfig) := none
  budgetSlack : Option UInt64 := none
  checkCatalog : Option Bool := none

/-- The shape of the settings. -/
def shape : Shape Form Config where
  fields := [
    .slot "cache" Form.cache (fun form cache => { form with cache })
      (Draft.optional CacheConfig.read),
    .slot "budgetSlack" Form.budgetSlack (fun form budgetSlack => { form with budgetSlack })
      Draft.asSize,
    .slot "checkCatalog" Form.checkCatalog (fun form checkCatalog => { form with checkCatalog })
      Draft.asBool]
  blank := {}
  finish form :=
    some ⟨form.cache.getD none, form.budgetSlack.getD default.budgetSlack,
      form.checkCatalog.getD default.checkCatalog⟩

/-- Read settings. -/
def read : Draft → Except Fault Config := shape.read

end Config

end Dataflow

import ApiContract.Config.Global
import ApiContract.Named
import ApiContract.Source.Remote
import ApiContract.Text.Blank

/-!
# The cache of fetched documents

Texts by the address that they came from. Only texts with something in them are kept. A text that is
kept for no time at all is never found again, but takes its place until the next one is kept.
-/

namespace ApiContract.Source

/-- A text, and whether there is time left for it. -/
structure Stored where
  text : String
  isFresh : Bool
  deriving DecidableEq, Repr

structure Cache where
  settings : Config.CacheSettings
  entries : Named Stored := []
  deriving DecidableEq, Repr

namespace Cache

/-- The text of an address. -/
def get? (cache : Cache) (url : String) : Option String :=
  if cache.settings.enabled then
    ((cache.entries.get? url).filter (·.isFresh)).map (·.text)
  else none

/-- Keeps a text for an address. Entries without time go. -/
def set (cache : Cache) (url text : String) : Cache :=
  if !cache.settings.enabled || Text.isBlankText text then cache
  else
    let fresh := cache.entries.filter (·.2.isFresh)
    let entries :=
      if cache.settings.ttlSeconds < 0 then fresh.filter (·.1 != url)
      else Named.insert fresh url ⟨text, 0 < cache.settings.ttlSeconds⟩
    { cache with entries }

/-- Forgets the text of an address. -/
def invalidate (cache : Cache) (url : String) : Cache :=
  { cache with entries := cache.entries.filter fun (u, stored) => u != url || !stored.isFresh }

/-- Forgets everything. -/
def clear (cache : Cache) : Cache := { cache with entries := [] }

/-- The number of entries. -/
def size (cache : Cache) : Nat := cache.entries.length

/-- What there is to say about a cache. -/
def statistics (cache : Cache) : Value :=
  record <| ("enabled", .bool cache.settings.enabled) ::
    if cache.settings.enabled then
      [("size", .int cache.size), ("ttl_seconds", .int cache.settings.ttlSeconds)]
    else []

end Cache

end ApiContract.Source

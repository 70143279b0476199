import SfcContract.Manifest.Json

/-!
# Pages of a manifest

The components that match a query, some at a time. Pages that follow each other hold every component
once.
-/

namespace SfcContract

structure Summary where
  path : Text
  name : Text
  propertyCount : Nat
  eventCount : Nat
  slotCount : Nat
  diagnosticCount : Nat
  cohesion : Binary64
  deriving DecidableEq, Repr

def Contract.summary (c : Contract) : Summary :=
  ⟨c.path, c.name, c.properties.length, c.events.length, c.slots.length, c.diagnostics.length,
    c.metrics.cohesion⟩

def Summary.toJson (s : Summary) : Json :=
  .object [("path".toList, .string s.path), ("name".toList, .string s.name),
    ("propCount".toList, .nat s.propertyCount), ("eventCount".toList, .nat s.eventCount),
    ("slotCount".toList, .nat s.slotCount), ("diagnosticCount".toList, .nat s.diagnosticCount),
    ("cohesion".toList, .number s.cohesion)]

/-- A part of the components that match a query. -/
structure Page where
  scannedAt : Text
  totalCount : Nat
  items : List Summary
  offset : Nat
  limit : Nat
  hasMore : Bool
  deriving DecidableEq, Repr

def Page.toJson (p : Page) : Json :=
  .object [("scannedAt".toList, .string p.scannedAt), ("totalCount".toList, .nat p.totalCount),
    ("items".toList, .array (p.items.map Summary.toJson)),
    ("pagination".toList, .object [("offset".toList, .nat p.offset), ("limit".toList, .nat p.limit),
      ("hasMore".toList, .bool p.hasMore)])]

namespace Page

def defaultLimit : Nat := 20

def maxLimit : Nat := 100

end Page

def Manifest.page (m : Manifest) (query : Text) (limit : Option Nat) (offset : Nat) : Page :=
  let found := m.filter query
  let limit := min (limit.getD Page.defaultLimit) Page.maxLimit
  let items := ((found.drop offset).take limit).map Contract.summary
  { scannedAt := m.scannedAt
    totalCount := found.length
    items, offset, limit
    hasMore := offset + items.length < found.length }

end SfcContract

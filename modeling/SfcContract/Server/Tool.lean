import SfcContract.Manifest.Page
import SfcContract.Store

/-!
# Tools over a manifest

Two tools look into a manifest file. They read it anew for each request and never analyse sources.
-/

namespace SfcContract

namespace Tool

open Json (Reader)
open Json.Reader (Member)

inductive Fault where
  /-- The arguments are not those of the tool. -/
  | arguments
  | unknownTool
  | noComponent (key : Text)
  | load (failure : Failure)
  deriving DecidableEq, Repr

namespace Fault

def isInternal : Fault → Bool
  | load _ => true
  | _ => false

def code (f : Fault) : Int := if f.isInternal then -32603 else -32602

def message : Fault → Text
  | arguments => "invalid arguments".toList
  | unknownTool => "tool not found".toList
  | noComponent key => "No component matching '".toList ++ key ++ "'".toList
  | load failure => failure.message

end Fault

/-- Small integers of requests have 32 bits. -/
def small : Reader Nat := .nat (Nat.pow 2 32)

structure ListRequest where
  manifestPath : Path
  query : Text := []
  limit : Option Nat := none
  offset : Nat := 0
  deriving DecidableEq, Repr

namespace ListRequest

structure Draft where
  manifestPath : Option Path := none
  query : Option (Option Text) := none
  limit : Option (Option Nat) := none
  offset : Option (Option Nat) := none

def fields : List (Member Draft) := [
  .of "manifestPath" .string (·.manifestPath.isSome) fun a d => { d with manifestPath := some a },
  .of "query" (.nullable .string) (·.query.isSome) fun a d => { d with query := some a },
  .of "limit" (.nullable small) (·.limit.isSome) fun a d => { d with limit := some a },
  .of "offset" (.nullable small) (·.offset.isSome) fun a d => { d with offset := some a }]

def Draft.finish (d : Draft) : Option ListRequest := do
  return { manifestPath := ← d.manifestPath, query := d.query.join.getD [], limit := d.limit.join,
           offset := d.offset.join.getD 0 }

def reader : Reader ListRequest := .record fields {} Draft.finish

end ListRequest

structure GetRequest where
  manifestPath : Path
  key : Text
  deriving DecidableEq, Repr

namespace GetRequest

structure Draft where
  manifestPath : Option Path := none
  key : Option Text := none

def fields : List (Member Draft) := [
  .of "manifestPath" .string (·.manifestPath.isSome) fun a d => { d with manifestPath := some a },
  .of "path" .string (·.key.isSome) fun a d => { d with key := some a }]

def Draft.finish (d : Draft) : Option GetRequest := do
  return { manifestPath := ← d.manifestPath, key := ← d.key }

def reader : Reader GetRequest := .record fields {} Draft.finish

end GetRequest

def loadManifest (t : Tree) (p : Path) : Except Fault Manifest := (Manifest.load t p).mapError .load

def ListRequest.answer (t : Tree) (r : ListRequest) : Except Fault Page := do
  let m ← loadManifest t r.manifestPath
  return m.page r.query r.limit r.offset

def GetRequest.answer (t : Tree) (r : GetRequest) : Except Fault Contract := do
  let m ← loadManifest t r.manifestPath
  match m.find? r.key with
  | some c => return c
  | none => .error (.noComponent r.key)

def decode {α : Type} (r : Reader α) (arguments : Text) : Except Fault α :=
  (Json.Reader.whole r arguments).mapError fun _ => .arguments

end Tool

inductive Tool where
  | getComponent
  | listComponents
  deriving DecidableEq, Repr

namespace Tool

def all : List Tool := [getComponent, listComponents]

def name : Tool → Text
  | getComponent => "get_component".toList
  | listComponents => "list_components".toList

def ofName? (n : Text) : Option Tool := all.find? (·.name == n)

def call (t : Tree) (tool : Tool) (arguments : Text) : Except Fault Text :=
  match tool with
  | getComponent => do
    let c ← (← decode GetRequest.reader arguments).answer t
    return c.toJson.write
  | listComponents => do
    let p ← (← decode ListRequest.reader arguments).answer t
    return p.toJson.write

end Tool

end SfcContract

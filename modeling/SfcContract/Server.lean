import SfcContract.Server.Tool

/-!
# The tool server

The server answers one request at a time. What it tells of itself is fixed; everything else it reads
from the file tree.
-/

namespace SfcContract.Server

def instructions : Text :=
  ("Vuepact MCP exposes the component contracts recorded by \x60vuepact scan\x60.\n\n" ++
    "Available tools:\n" ++
    "1. list_components - Find components by name or path (paginated)\n" ++
    "2. get_component - Get props, emits, slots, metrics and diagnostics of one component\n\n" ++
    "Both tools read an existing manifest and never re-analyze sources. " ++
    "Run \x60vuepact scan\x60 first if the manifest is missing or stale.").toList

def newestVersion : Text := "2025-03-26".toList

inductive Request where
  | handshake (version : Text)
  | ping
  | listTools
  | callTool (name arguments : Text)
  | listPrompts
  | listResources
  | listResourceTemplates
  | unknown
  deriving DecidableEq, Repr

/-- The request of a method, with what its parameters hold: the version that is asked for, or the name
and the arguments of a tool. -/
def Request.ofMethod (method : Text) (version name arguments : Option Text) : Request :=
  match String.ofList method, version, name with
  | "initialize", some version, _ => .handshake version
  | "ping", _, _ => .ping
  | "tools/list", _, _ => .listTools
  | "tools/call", _, some name => .callTool name (arguments.getD ['{', '}'])
  | "prompts/list", _, _ => .listPrompts
  | "resources/list", _, _ => .listResources
  | "resources/templates/list", _, _ => .listResourceTemplates
  | _, _, _ => .unknown

inductive Fault where
  | unknownMethod
  | tool (fault : Tool.Fault)
  deriving DecidableEq, Repr

def Fault.code : Fault → Int
  | unknownMethod => -32601
  | tool fault => fault.code

def text (s : String) : Json := .string s.toList

def members (ms : List (String × Json)) : Json := .object (ms.map fun m => (m.1.toList, m.2))

structure Parameter where
  name : String
  type : String
  description : String
  optional : Bool := false
  /-- Numbers are unsigned and have 32 bits. -/
  numeric : Bool := false

def Parameter.schema (p : Parameter) : Json :=
  members ([("type", text p.type), ("description", text p.description)] ++
    (if p.numeric then [("format", text "uint32"), ("minimum", .nat 0)] else []) ++
    if p.optional then [("default", .null), ("nullable", .bool true)] else [])

def manifestParameter : Parameter :=
  { name := "manifestPath", type := "string", description := "Path to a manifest written by \x60vuepact scan\x60" }

def parameters : Tool → List Parameter
  | .getComponent => [manifestParameter,
    { name := "path", type := "string",
      description := "Component path as listed in the manifest, or a component name" }]
  | .listComponents => [manifestParameter,
    { name := "query", type := "string",
      description := "Case-insensitive filter on component name or path", optional := true },
    { name := "limit", type := "integer",
      description := "Maximum number of items to return (default 20, max 100)", optional := true,
      numeric := true },
    { name := "offset", type := "integer", description := "Number of items to skip", optional := true,
      numeric := true }]

def title : Tool → String
  | .getComponent => "GetComponentParams"
  | .listComponents => "ListComponentsParams"

def description : Tool → String
  | .getComponent =>
    "Get the full contract of one component (props with types/defaults, emits, slots, metrics, diagnostics). " ++
      "Matches the exact manifest path first, then the component name."
  | .listComponents =>
    "List components from a vuepact manifest with prop/emit/slot/diagnostic counts. " ++
      "Optional case-insensitive query on name or path. Returns paginated list."

def toolJson (tool : Tool) : Json :=
  members [("name", .string tool.name), ("description", text (description tool)),
    ("inputSchema", members [("$schema", text "https://json-schema.org/draft/2020-12/schema"),
      ("title", text (title tool)), ("type", text "object"),
      ("properties", members ((parameters tool).map fun p => (p.name, p.schema))),
      ("required", .array (((parameters tool).filter (!·.optional)).map fun p => text p.name))])]

/-- The older of two versions, which are dates. -/
def agreedVersion (asked : Text) : Text := if Text.isAtMost asked newestVersion then asked else newestVersion

def answer (t : Tree) : Request → Except Fault Json
  | .handshake version =>
    .ok (members [("protocolVersion", .string (agreedVersion version)),
      ("capabilities", members [("tools", .object [])]), ("instructions", .string instructions)])
  | .ping => .ok (.object [])
  | .listTools => .ok (members [("tools", .array (Tool.all.map toolJson))])
  | .callTool name arguments =>
    match Tool.ofName? name with
    | none => .error (.tool .unknownTool)
    | some tool =>
      match tool.call t arguments with
      | .error fault => .error (.tool fault)
      | .ok content =>
        .ok (members [("content", .array [members [("type", text "text"), ("text", .string content)]]),
          ("isError", .bool false)])
  | .listPrompts => .ok (members [("prompts", .array [])])
  | .listResources => .ok (members [("resources", .array [])])
  | .listResourceTemplates => .ok (members [("resourceTemplates", .array [])])
  | .unknown => .error .unknownMethod

end SfcContract.Server

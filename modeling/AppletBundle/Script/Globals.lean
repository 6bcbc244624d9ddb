/-!
# Global names

Names that a script may use without declaring or importing them: those of the language, of the
browser and of the runtime for mini-programs, and those that a project adds.
-/

namespace AppletBundle.Script

/-- Globals of the language. -/
def languageGlobals : List String :=
  ["undefined", "NaN", "Infinity", "globalThis", "Object", "Function", "Array", "Number", "Boolean",
   "String", "Symbol", "BigInt", "Math", "JSON", "Date", "RegExp", "Error", "TypeError",
   "RangeError", "SyntaxError", "ReferenceError", "EvalError", "URIError", "AggregateError",
   "Promise", "Proxy", "Reflect", "Map", "Set", "WeakMap", "WeakSet", "WeakRef", "ArrayBuffer",
   "SharedArrayBuffer", "DataView", "Int8Array", "Uint8Array", "Uint8ClampedArray", "Int16Array",
   "Uint16Array", "Int32Array", "Uint32Array", "Float32Array", "Float64Array", "BigInt64Array",
   "BigUint64Array", "Intl", "parseInt", "parseFloat", "isNaN", "isFinite", "encodeURI",
   "encodeURIComponent", "decodeURI", "decodeURIComponent", "eval", "arguments"]

/-- Globals of the browser. -/
def hostGlobals : List String :=
  ["console", "window", "document", "navigator", "location", "history", "localStorage",
   "sessionStorage", "fetch", "setTimeout", "clearTimeout", "setInterval", "clearInterval",
   "requestAnimationFrame", "cancelAnimationFrame", "queueMicrotask", "URL", "URLSearchParams",
   "TextEncoder", "TextDecoder", "performance", "alert"]

/-- Globals of the runtime that is shipped next to every bundle. -/
def runtimeGlobals : List String :=
  ["wx", "App", "Page", "Component", "Behavior", "getApp", "getCurrentPages", "remotes"]

/-- Whether a name is global in every project. -/
def isBuiltinGlobal (name : String) : Bool :=
  languageGlobals.contains name || hostGlobals.contains name || runtimeGlobals.contains name

/-- The global names of a project: the ones of every project, and its own. -/
structure KnownGlobals where
  extra : List String

/-- Whether a name is global in a project. -/
def KnownGlobals.contains (globals : KnownGlobals) (name : String) : Bool :=
  isBuiltinGlobal name || globals.extra.contains name

end AppletBundle.Script
